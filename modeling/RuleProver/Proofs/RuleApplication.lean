import RuleProver.Proofs.GroundComposition

/-!
# Applying a rule to instances

A rule `l s q` is applied to an expression `t` by unifying `t` with `l`, in both directions: a hole
of `t` may be bound as well as a hole of `l`. Only `q` is kept, so what was bound in `t` is lost.
The rule `A => B` takes the hole `#k` to `B`, as if the hole stood for `A` alone, and does not apply
to `C` (`compose_not_stable`). The result is not one for all that `t` may become.

It is one exactly if no hole of `t` has to be bound, that is, if `t` is an instance of `l`. If it
is, the rule applies to everything that `t` becomes, and gives what its result becomes; if it is
not, there are values for the holes of `t` where this fails (`compose_fill_iff`). Only a hole can
become a rule under the symbol `s` itself. Such a rule is chained with `l s q` and not taken as a
whole.

## Main definitions

* `Assignment.Fills` — values without holes for the holes of an expression
* `Expr.IsRule` — a rule under a given symbol

## Main results

* `Expr.compose_eq_map_unifier?` — what applying a rule is, when no hole has to be renamed
* `Expr.compose_fill` — applying a rule to an instance of its left side, before and after filling
* `Expr.compose_fill_iff` — filling commutes with applying a rule exactly for such instances
-/

namespace RuleProver

variable {α : Type}

namespace Assignment

/-- The bindings of `σ`, with the holes in their values filled by `θ`. -/
def fillValues (σ θ : Assignment α) : Assignment α := σ.map fun e => (e.1, e.2.fill θ)

@[simp] theorem fillValues_nil (θ : Assignment α) : fillValues [] θ = [] := rfl

@[simp] theorem fillValues_cons (e : String × Expr α) (σ θ : Assignment α) :
    fillValues (e :: σ) θ = (e.1, e.2.fill θ) :: σ.fillValues θ := rfl

@[simp] theorem fillValues_append (σ τ θ : Assignment α) :
    fillValues (σ ++ τ) θ = σ.fillValues θ ++ τ.fillValues θ :=
  List.map_append

theorem get?_fillValues (σ θ : Assignment α) (x : String) :
    (σ.fillValues θ).get? x = (σ.get? x).map (·.fill θ) :=
  get?_map (·.fill θ) σ x

/-- Bindings that agree still agree once their values are filled. -/
theorem bind_fillValues {σ τ : Assignment α} {x : String} {t : Expr α}
    (h : σ.bind x t = (true, τ)) (θ : Assignment α) :
    (σ.fillValues θ).bind x (t.fill θ) = (true, τ.fillValues θ) := by
  rw [bind] at h ⊢
  rw [get?_fillValues]
  cases hx : σ.get? x with
  | none =>
    simp only [hx, Prod.mk.injEq, true_and] at h
    simp [← h]
  | some u =>
    simp only [hx, Prod.mk.injEq] at h
    obtain ⟨hsame, rfl⟩ := h
    have hfill : (u.fill θ).same (t.fill θ) = true := by
      rw [Expr.same_iff, Expr.erase_fill, Expr.erase_fill, (Expr.same_iff u t).mp hsame]
    simp [hfill]

theorem solve_fillValues {σ τ : Assignment α} {es : List (Equation α)} (h : σ.solve es = some τ)
    (θ : Assignment α) : (σ.fillValues θ).solve (fillValues es θ) = some (τ.fillValues θ) := by
  induction es generalizing σ with
  | nil =>
    obtain rfl := Option.some.inj h
    rfl
  | cons e es ih =>
    rw [solve] at h
    split at h
    · rename_i σ' hbind
      rw [fillValues_cons, solve, bind_fillValues hbind θ]
      exact ih h
    · contradiction

/-- `θ` gives every hole of `t`, and no other, a value without holes. -/
structure Fills (θ : Assignment α) (t : Expr α) : Prop where
  keys : ∀ x, x ∈ θ.keys ↔ x ∈ t.holes
  ground : ∀ e ∈ θ, e.2.Ground

/-- The values of `κ` for the holes of `t`. -/
def ofValues (κ : String → Expr α) (t : Expr α) : Assignment α :=
  t.holeNames.map fun x => (x, κ x)

theorem get?_ofValues {κ : String → Expr α} {t : Expr α} {x : String} (hx : x ∈ t.holes) :
    (ofValues κ t).get? x = some (κ x) := by
  have hlookup : ∀ names : List String, x ∈ names →
      (names.map fun y => (y, κ y)).lookup x = some (κ x) := by
    intro names hnames
    induction names with
    | nil => simp at hnames
    | cons y names ih =>
      rw [List.map_cons, List.lookup_cons]
      by_cases hxy : x = y
      · simp [hxy]
      · rw [beq_eq_false_iff_ne.mpr hxy]
        exact ih ((List.mem_cons.mp hnames).resolve_left hxy)
  exact hlookup t.holeNames (Expr.mem_holeNames.mpr hx)

theorem fills_ofValues {κ : String → Expr α} (hκ : ∀ x, (κ x).Ground) (t : Expr α) :
    (ofValues κ t).Fills t where
  keys x := by simp [ofValues, keys, Expr.mem_holeNames]
  ground e he := by
    obtain ⟨x, -, rfl⟩ := List.mem_map.mp he
    exact hκ x

end Assignment

namespace Expr

/-! ## Filling -/

theorem holes_fill (t : Expr α) (σ : Assignment α) :
    (t.fill σ).holes = t.holes.flatMap fun x => ((σ.get? x).elim [x] holes) := by
  rw [fill]
  induction t with
  | hole m x =>
    rw [subst_hole, holes_hole, List.flatMap_cons, List.flatMap_nil, List.append_nil]
    cases σ.get? x <;> simp
  | node m h cs ih =>
    rw [subst_node, holes_node, holes_node, List.flatMap_map, List.flatMap_assoc]
    exact List.flatMap_congr ih

theorem Ground.of_fills {θ : Assignment α} {t : Expr α} (h : θ.Fills t) : (t.fill θ).Ground := by
  rw [Ground, holes_fill, List.flatMap_eq_nil_iff]
  intro x hx
  cases hget : θ.get? x with
  | none => exact absurd ((h.keys x).mpr hx) (Assignment.get?_eq_none_iff.mp hget)
  | some v => exact h.ground _ (Assignment.mem_of_get? hget)

theorem erase_fill_ofValues (κ : String → Expr α) (t : Expr α) :
    (t.fill (.ofValues κ t)).erase = t.inst fun x => (κ x).erase := by
  rw [← inst_var, inst_fill]
  refine inst_congr fun x hx => ?_
  rw [Assignment.andThen, Assignment.get?_ofValues hx, Option.elim_some, inst_var]

/-- Filling twice fills the values of the first assignment, when the second leaves alone what the
first does not bind. -/
theorem fill_fillValues {σ θ : Assignment α} {t : Expr α}
    (h : ∀ x ∈ t.holes, σ.get? x = none → θ.get? x = none) :
    t.fill (σ.fillValues θ) = (t.fill σ).fill θ := by
  rw [fill, fill, fill]
  induction t with
  | hole m x =>
    rw [subst_hole, subst_hole, Assignment.get?_fillValues]
    cases hx : σ.get? x with
    | none => simp [h x (by simp) hx]
    | some u => rfl
  | node m k cs ih =>
    rw [subst_node, subst_node, subst_node, List.map_map]
    refine congrArg _ (List.map_congr_left fun c hc => ih c hc fun x hx => h x ?_)
    rw [holes_node]
    exact List.mem_flatMap.mpr ⟨c, hc, hx⟩

mutual

/-- The equations between an instance of a pattern and the pattern bind holes of the pattern only,
so filling the instance fills their values. -/
theorem equations_fill {φ : String → Expr Unit} (θ : Assignment α) : (t l : Expr α) →
    l.inst φ = t.erase → ∃ es, equations t l = some es ∧
      equations (t.fill θ) l = some (Assignment.fillValues es θ)
  | t, .hole m y, _ => by
    refine ⟨[(y, t)], ?_, ?_⟩
    · rw [equations]
    · rw [equations]
      rfl
  | .hole m x, .node m' k ls, h => by simp at h
  | .node m k ts, .node m' k' ls, h => by
    rw [inst_node, erase_node, node.injEq] at h
    obtain ⟨-, hk, hls⟩ := h
    have hlen : ts.length = ls.length := by simpa using congrArg List.length hls.symm
    obtain ⟨es, hes, hfill⟩ := equationsAll_fill θ ts ls hls
    refine ⟨es, ?_, ?_⟩
    · rw [equations, if_pos ⟨hk.symm, hlen⟩, hes]
    · rw [fill, subst_node, equations, if_pos ⟨hk.symm, by rwa [List.length_map]⟩]
      exact hfill

theorem equationsAll_fill {φ : String → Expr Unit} (θ : Assignment α) :
    (ts ls : List (Expr α)) → ls.map (inst φ) = ts.map erase →
    ∃ es, equationsAll ts ls = some es ∧
      equationsAll (ts.map (subst θ.get?)) ls = some (Assignment.fillValues es θ)
  | [], [], _ => ⟨[], by simp [equationsAll], by simp [equationsAll]⟩
  | t :: ts, l :: ls, h => by
    rw [List.map_cons, List.map_cons, List.cons.injEq] at h
    obtain ⟨es, hes, hfill⟩ := equations_fill θ t l h.1
    obtain ⟨fs, hfs, hfills⟩ := equationsAll_fill θ ts ls h.2
    refine ⟨es ++ fs, ?_, ?_⟩
    · rw [equationsAll, hes, hfs]
      rfl
    · rw [fill] at hfill
      rw [List.map_cons, equationsAll, hfill, hfills]
      simp
  | [], _ :: _, h => by simp at h
  | _ :: _, [], h => by simp at h

end

theorem unifier?_fill {φ : String → Expr Unit} {t l : Expr α} (h : l.inst φ = t.erase)
    {σ : Assignment α} (hσ : t.unifier? l = some σ) (θ : Assignment α) :
    (t.fill θ).unifier? l = some (σ.fillValues θ) := by
  obtain ⟨es, hes, hfill⟩ := equations_fill θ t l h
  rw [unifier?_eq, hes] at hσ
  rw [unifier?_eq, hfill]
  exact Assignment.solve_fillValues hσ θ

/-! ## Applying a rule -/

/-- A rule under the symbol `s`. -/
def IsRule (s : String) (t : Expr α) : Prop := ∃ m a b, t = .node m (.rule s) [a, b]

/-- What is not a rule becomes one by filling only where it is a hole. -/
theorem exists_hole_of_isRule_fill {s : String} {t : Expr α} {θ : Assignment α}
    (ht : ¬ t.IsRule s) (h : (t.fill θ).IsRule s) : ∃ m x, t = .hole m x := by
  obtain ⟨m', a, b, h⟩ := h
  cases t with
  | hole m x => exact ⟨m, x, rfl⟩
  | node m k cs =>
    rw [fill, subst_node, node.injEq] at h
    obtain ⟨-, rfl, hcs⟩ := h
    have hlen : cs.length = 2 := by simpa using congrArg List.length hcs
    obtain ⟨c, d, rfl⟩ := List.length_eq_two.mp hlen
    exact absurd ⟨m, c, d, rfl⟩ ht

/-- No name is changed when there is no clash. -/
theorem rename_apart_eq_self {A r : Expr α} {names : List String}
    (h : ∀ x ∈ names, x ∉ A.holes) : r.rename (apart A names) = r := by
  have hnil : freshen A.holeNames names = [] := by
    induction names with
    | nil => rfl
    | cons x names ih =>
      rw [freshen, if_neg fun hx => h x List.mem_cons_self (mem_holeNames.mp hx)]
      exact ih fun y hy => h y (List.mem_cons_of_mem x hy)
  exact rename_eq_self fun x _ => by rw [apart, hnil]; rfl

variable [Inhabited α] {m m' : α} {s : String} {a t l q u : Expr α}

/-- Rules without a common hole compose by unifying what stands between them. -/
theorem composeRules_of_disjoint [HoleOrder]
    (h : ∀ x ∈ (node m' (.rule s) [l, q]).holes, x ∉ (node m (.rule s) [a, t]).holes) :
    (node m (.rule s) [a, t]).composeRules (.node m' (.rule s) [l, q]) =
      (t.unifier? l).map fun σ => rule (a.fill σ) s (q.fill σ) := by
  have hnames : ∀ x ∈ HoleOrder.visit (node m' (.rule s) [l, q]).erase,
      x ∉ (node m (.rule s) [a, t]).holes :=
    fun x hx => h x (mem_visit_erase.mp hx)
  rw [composeRules, composeRulesVisiting_rule, rename_apart_eq_self hnames,
    rename_apart_eq_self hnames]

/-- A rule without holes composes with another by matching. -/
theorem composeRules_of_ground [HoleOrder] (h : (node m (.rule s) [a, t]).Ground) :
    (node m (.rule s) [a, t]).composeRules (.node m' (.rule s) [l, q]) =
      (t.unifier? l).map fun σ => rule a s (q.fill σ) := by
  rw [composeRules_of_disjoint fun x _ hx => by rw [h] at hx; cases hx]
  congr 1
  funext σ
  rw [fill_of_ground (ground_pair.mp h).1]

/-- Applying a rule is unifying with its left side and filling its right side, where no hole has to
be renamed and the rule is not chained. -/
theorem compose_of_composeRules_eq_none [HoleOrder]
    (hnone : t.composeRules (.node m (.rule s) [l, q]) = none)
    (happart : ∀ x ∈ t.holes, x ∉ (node m (.rule s) [l, q]).holes) :
    t.compose (.node m (.rule s) [l, q]) = (t.unifier? l).map fun σ => q.fill σ := by
  have hdisjoint : ∀ x ∈ (node m (.rule s) [l, q]).holes, x ∉ (rule t s t).holes := by
    intro x hx hxt
    exact happart x (by simpa using hxt) hx
  rw [compose, hnone]
  dsimp only
  rw [identity, composeRules_of_disjoint hdisjoint]
  cases t.unifier? l <;> rfl

/-- A rule is not chained with what is no rule under its symbol. -/
theorem compose_eq_map_unifier? [HoleOrder] (ht : ¬ t.IsRule s)
    (happart : ∀ x ∈ t.holes, x ∉ (node m (.rule s) [l, q]).holes) :
    t.compose (.node m (.rule s) [l, q]) = (t.unifier? l).map fun σ => q.fill σ := by
  refine compose_of_composeRules_eq_none ?_ happart
  by_contra hsome
  obtain ⟨C, hC⟩ := Option.ne_none_iff_exists'.mp hsome
  obtain ⟨m₁, m₂, s', a, b, c, d, -, -, rfl, hr, -⟩ := exists_of_composeRules hC
  cases hr
  exact ht ⟨m₁, a, b, rfl⟩

/-- **Applying a rule to an instance of its left side** commutes with filling the instance. -/
theorem compose_fill [HoleOrder] (ht : ¬ t.IsRule s)
    (happart : ∀ x ∈ t.holes, x ∉ (node m (.rule s) [l, q]).holes)
    (hu : t.compose (.node m (.rule s) [l, q]) = some u) {φ : String → Expr Unit}
    (hinst : l.inst φ = t.erase) {θ : Assignment α} (hθ : θ.Fills t)
    (hfill : ¬ (t.fill θ).IsRule s) :
    (t.fill θ).compose (.node m (.rule s) [l, q]) = some (u.fill θ) := by
  rw [compose_eq_map_unifier? ht happart] at hu
  obtain ⟨σ, hσ, rfl⟩ := Option.map_eq_some_iff.mp hu
  have hground : (t.fill θ).Ground := .of_fills hθ
  have hq : ∀ x ∈ q.holes, σ.get? x = none → θ.get? x = none := by
    intro x hx _
    refine Assignment.get?_eq_none_iff.mpr fun hxθ => happart x ((hθ.keys x).mp hxθ) ?_
    simp [hx]
  rw [compose_eq_map_unifier? hfill (fun x hx => by rw [hground] at hx; simp at hx),
    unifier?_fill hinst hσ, Option.map_some, fill_fillValues hq]

/-- A rule in place of a hole is chained with the rule that applies to the hole. -/
theorem compose_fill_of_isRule [HoleOrder] (ht : ¬ t.IsRule s) {φ : String → Expr Unit}
    (hinst : l.inst φ = t.erase) {θ : Assignment α} (hθ : θ.Fills t) {m' : α} {c d : Expr α}
    (hrule : t.fill θ = .node m' (.rule s) [c, d]) :
    ∃ m'' a, l = .hole m'' a ∧ (t.fill θ).compose (.node m (.rule s) [l, q]) =
      some (rule c s (q.fill [(a, d)])) := by
  obtain ⟨m₀, x, rfl⟩ := exists_hole_of_isRule_fill ht ⟨m', c, d, hrule⟩
  have hground : (node m' (.rule s) [c, d]).Ground := hrule ▸ .of_fills hθ
  cases l with
  | node m'' k ls => simp at hinst
  | hole m'' a =>
    refine ⟨m'', a, rfl, ?_⟩
    have hcompose : (node m' (.rule s) [c, d]).composeRules (.node m (.rule s) [.hole m'' a, q]) =
        some (rule c s (q.fill [(a, d)])) := by
      rw [composeRules_of_ground hground, unifier?_eq, equations]
      rfl
    rw [hrule, compose, hcompose]

/-- What a rule applies to without holes is an instance of its left side. -/
theorem exists_inst_of_compose [HoleOrder] (ht : ¬ t.IsRule s) (hground : t.Ground)
    (hu : t.compose (.node m (.rule s) [l, q]) = some u) :
    ∃ φ : String → Expr Unit, l.inst φ = t.erase := by
  rw [compose_eq_map_unifier? ht fun x hx => by rw [hground] at hx; simp at hx] at hu
  obtain ⟨σ, hσ, -⟩ := Option.map_eq_some_iff.mp hu
  obtain ⟨φ, hφ⟩ := exists_inst_eq_of_unifier? hσ (.inl hground)
  exact ⟨φ, by rw [← hφ, inst_of_ground hground]⟩

/-- The constant that stands for the hole `#x` in a generic instance. -/
def frozen (k : Nat) (x : String) : Expr α := const (String.ofList (List.replicate k '_') ++ x)

theorem ground_frozen (k : Nat) (x : String) : (frozen k x : Expr α).Ground := by
  simp [Ground, frozen]

/-- **When applying a rule commutes with filling.** Let a rule `l s q` apply to `t`, which is no
rule under `s` itself and has no hole in common with the rule. Then `t` is an instance of `l`
exactly when, whatever the holes of `t` are filled with, the rule applies to the result and gives
what it gave for `t`, filled likewise; unless filling has made a rule `c s d` of `t`. In that case
`t` was a hole, `l` is a hole as well, and the two rules are chained. -/
theorem compose_fill_iff [HoleOrder] (ht : ¬ t.IsRule s)
    (happart : ∀ x ∈ t.holes, x ∉ (node m (.rule s) [l, q]).holes)
    (hu : t.compose (.node m (.rule s) [l, q]) = some u) :
    ((∃ φ : String → Expr Unit, l.inst φ = t.erase) ↔
        ∀ θ : Assignment α, θ.Fills t → ¬ (t.fill θ).IsRule s →
          (t.fill θ).compose (.node m (.rule s) [l, q]) = some (u.fill θ)) ∧
      ((∃ φ : String → Expr Unit, l.inst φ = t.erase) →
        ∀ θ : Assignment α, θ.Fills t → ∀ m' c d, t.fill θ = .node m' (.rule s) [c, d] →
          ∃ m'' a, l = .hole m'' a ∧ (t.fill θ).compose (.node m (.rule s) [l, q]) =
            some (rule c s (q.fill [(a, d)]))) := by
  refine ⟨⟨?_, fun hstable => ?_⟩, ?_⟩
  · rintro ⟨φ, hinst⟩ θ hθ hfill
    exact compose_fill ht happart hu hinst hθ hfill
  · -- the rule applies to the generic instance, which is then an instance of `l` and melts into `t`
    obtain ⟨k, hk⟩ := exists_namesBelow [t, l]
    have hfills := Assignment.fills_ofValues (κ := frozen k) (ground_frozen k) t
    have herase : (t.fill (.ofValues (frozen k) t)).erase = t.inst (freeze k) := by
      rw [erase_fill_ofValues]
      rfl
    have hfill : ¬ (t.fill (.ofValues (frozen k) t)).IsRule s := by
      intro hrule
      obtain ⟨m₀, x, rfl⟩ := exists_hole_of_isRule_fill ht hrule
      obtain ⟨m', a, b, hrule⟩ := hrule
      have hconst := congrArg erase hrule
      rw [herase, inst_hole, freeze] at hconst
      simp at hconst
    obtain ⟨ψ, hψ⟩ := exists_inst_of_compose hfill (.of_fills hfills) (hstable _ hfills hfill)
    refine ⟨fun x => melt k (ψ x), ?_⟩
    calc (l.inst fun x => melt k (ψ x)) = melt k (l.inst ψ) := (melt_inst (hk l (by simp)) ψ).symm
      _ = melt k (t.inst (freeze k)) := by rw [hψ, herase]
      _ = t.inst fun x => melt k (freeze k x) := melt_inst (hk t (by simp)) _
      _ = t.erase := by simp only [melt_freeze, inst_var]
  · rintro ⟨φ, hinst⟩ θ hθ m' c d hrule
    exact compose_fill_of_isRule ht hinst hθ hrule

/-- The rule `f(#a, #a) => g(#a, #b)` takes `f(#k, #k)` to `g(#k, #b)`, and so it takes
`f(A => A, A => A)` to `g(A => A, #b)`. -/
theorem compose_fill_of_repeated :
    (term "f" [var "k", var "k"] : Expr Unit).compose
        (rule (term "f" [var "a", var "a"]) "=>" (term "g" [var "a", var "b"])) =
      some (term "g" [var "k", var "b"]) ∧
    ((term "f" [var "k", var "k"] : Expr Unit).fill
        [("k", rule (const "A") "=>" (const "A"))]).compose
        (rule (term "f" [var "a", var "a"]) "=>" (term "g" [var "a", var "b"])) =
      some ((term "g" [var "k", var "b"]).fill [("k", rule (const "A") "=>" (const "A"))]) := by
  have hu : (term "f" [var "k", var "k"] : Expr Unit).compose
      (rule (term "f" [var "a", var "a"]) "=>" (term "g" [var "a", var "b"])) =
        some (term "g" [var "k", var "b"]) := rfl
  have hfills : Assignment.Fills [("k", (rule (const "A") "=>" (const "A") : Expr Unit))]
      (term "f" [var "k", var "k"]) := ⟨by simp [Assignment.keys], by simp⟩
  have ht : ¬ (term "f" [var "k", var "k"] : Expr Unit).IsRule "=>" := by simp [IsRule]
  refine ⟨hu, (compose_fill_iff ht (by decide) hu).1.mp ⟨fun _ => var "k", rfl⟩ _ hfills ?_⟩
  simp [IsRule, fill]

/-- The rule `A => B` takes the hole `#k` to `B`, but it does not apply to `C`. And where a rule for
anything, such as `#a => B`, takes `#k` to `B`, it takes the rule `C => D` to `C => B`. -/
theorem compose_not_stable :
    ¬ (var "k" : Expr Unit).IsRule "=>" ∧
    Assignment.Fills [("k", (const "C" : Expr Unit))] (var "k") ∧
    Assignment.Fills [("k", (rule (const "C") "=>" (const "D") : Expr Unit))] (var "k") ∧
    (var "k" : Expr Unit).compose (rule (const "A") "=>" (const "B")) = some (const "B") ∧
    ((var "k" : Expr Unit).fill [("k", const "C")]).compose
      (rule (const "A") "=>" (const "B")) = none ∧
    (var "k" : Expr Unit).compose (rule (var "a") "=>" (const "B")) = some (const "B") ∧
    ((var "k" : Expr Unit).fill [("k", rule (const "C") "=>" (const "D"))]).compose
      (rule (var "a") "=>" (const "B")) = some (rule (const "C") "=>" (const "B")) := by
  refine ⟨by simp [IsRule], ⟨by simp [Assignment.keys], by simp⟩,
    ⟨by simp [Assignment.keys], by simp⟩, ?_, ?_, ?_, ?_⟩ <;> rfl

end Expr

end RuleProver
