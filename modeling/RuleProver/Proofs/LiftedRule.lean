import RuleProver.Proofs.Matching
import RuleProver.Proofs.PositionalUse

/-!
# Rules lifted to a position

A congruence rule `(#x s #y) q (f(#x, #z) s f(#y, #z))` turns a rule on the first argument of `f`
into one on the whole of `f(…)`: composed with it, a rule `L s R` becomes `f(L, #z') s f(R, #z')`,
with a name for the other argument that is new. A rule is lifted to a path by one such composition
for every term on the path, from the innermost outwards. What comes out is the rule itself with the
same terms around both sides, and with a hole of its own for everything that the path passes by
(`Lifted`).

Such a hole takes whatever stands there and puts it back. So the lifted rule applies to a term
without holes exactly when the rule applies at the path, and it changes the term there and nowhere
else (`Functorials.lifted_rewrites_at`).

## Main definitions

* `Expr.replaceAt` — an expression with another one at a path
* `Expr.IsCongruence` — a rule that lifts rules to an argument of a term
* `Expr.Siblings` — new holes for the other arguments of a term
* `Expr.Lifted` — the sides of a rule, lifted to a path
* `Functorials.Congruent` — there is a congruence rule for every term on a path

## Main results

* `Expr.compose_congruence` — one level of lifting
* `Functorials.Congruent.exists_lift` — lifting along a path
* `Functorials.lifted_rewrites_at` — what using a lifted rule does to a chain
-/

namespace RuleProver

namespace Expr

variable {α : Type}

/-- The expression with another one in place of the subexpression that a path leads to. -/
def replaceAt : Expr α → List Nat → Expr α → Expr α
  | _, [], u => u
  | t, i :: path, u => t.withChildren (t.children.modify i fun c => c.replaceAt path u)

theorem replaceAt_node (m : α) (h : Head) (before : List (Expr α)) (c : Expr α)
    (after : List (Expr α)) (path : List Nat) (u : Expr α) :
    (node m h (before ++ c :: after)).replaceAt (before.length :: path) u =
      .node m h (before ++ c.replaceAt path u :: after) := by
  rw [replaceAt, children, withChildren]
  congr 1
  induction before with
  | nil => rfl
  | cons b before ih => simpa using ih

theorem at?_node (m : α) (h : Head) (before : List (Expr α)) (c : Expr α)
    (after : List (Expr α)) (path : List Nat) :
    (node m h (before ++ c :: after)).at? (before.length :: path) = c.at? path := by
  simp [at?, children]

/-! ## Congruence rules -/

/-- The term `f(…, t, …)` with holes before and after `t`. -/
def under (f : String) (before after : List String) (t : Expr Unit) : Expr Unit :=
  term f (before.map var ++ t :: after.map var)

/-- The rule `(#x s #y) q (f(…, #x, …) s f(…, #y, …))`, with holes for the other arguments. -/
def congruence (s q f x y : String) (before after : List String) : Expr Unit :=
  rule (rule (var x) s (var y)) q
    (rule (under f before after (var x)) s (under f before after (var y)))

/-- A rule says that related arguments give related terms: it lifts a rule under `s` to the argument
of `f` with `n` arguments before it and `k` after it. Its holes are all different and have no
primes, and its symbol is another one. -/
def IsCongruence (s f : String) (n k : Nat) (g : Object) : Prop :=
  ∃ q x y before after, q ≠ s ∧ before.length = n ∧ after.length = k ∧
    (x :: y :: (before ++ after)).Nodup ∧
    (∀ z ∈ x :: y :: (before ++ after), prime ∉ z.toList) ∧
    g.erase = congruence s q f x y before after

variable {s q f x y : String} {before after : List String} {L R t : Expr Unit}

theorem holes_under : (under f before after t).holes = before ++ t.holes ++ after := by
  simp [under, List.flatMap_map]

theorem heads_under : (under f before after t).heads = .term f :: t.heads := by
  have hvars : ∀ zs : List String, (zs.map (var : String → Expr Unit)).flatMap heads = [] := by
    intro zs
    simp [List.flatMap_eq_nil_iff]
  simp [under, hvars]

theorem inst_under (θ : String → Expr Unit) :
    (under f before after t).inst θ =
      .node () (.term f) (before.map θ ++ t.inst θ :: after.map θ) := by
  simp [under, Function.comp_def]

theorem compFree_congruence : Head.comp ∉ (congruence s q f x y before after).heads := by
  simp [congruence, heads_under]

/-- Holes that an assignment leaves open are only renamed. -/
theorem fill_rename_under {σ : Assignment Unit} {ρ : String → String}
    (h : ∀ z ∈ before ++ after, σ.get? (ρ z) = none) :
    ((under f before after t).rename ρ).fill σ =
      under f (before.map ρ) (after.map ρ) ((t.rename ρ).fill σ) := by
  have hopen : ∀ zs : List String, zs ⊆ before ++ after →
      ((zs.map var).map (rename ρ)).map (subst σ.get?) = (zs.map ρ).map var := by
    intro zs hzs
    rw [List.map_map, List.map_map, List.map_map]
    refine List.map_congr_left fun z hz => ?_
    simp [h z (hzs hz)]
  rw [under, rename_node, fill, subst_node, under, List.map_append, List.map_append,
    List.map_cons, List.map_cons, hopen before (List.subset_append_left _ _),
    hopen after (List.subset_append_right _ _)]
  rfl

/-- Filled with two sides for `x` and `y`, the right side of a congruence rule relates the terms
with these sides. -/
theorem fill_rename_sides {ρ : String → String}
    (h : ((x :: y :: (before ++ after)).map ρ).Nodup) :
    ((rule (under f before after (var x)) s (under f before after (var y))).rename ρ).fill
        [(ρ x, L), (ρ y, R)] =
      rule (under f (before.map ρ) (after.map ρ) L) s
        (under f (before.map ρ) (after.map ρ) R) := by
  rw [List.map_cons, List.map_cons, List.nodup_cons, List.nodup_cons, List.mem_cons, not_or] at h
  obtain ⟨⟨hxy, hx⟩, hy, -⟩ := h
  have hopen : ∀ z ∈ before ++ after, Assignment.get? [(ρ x, L), (ρ y, R)] (ρ z) = none := by
    intro z hz
    have hmem : ρ z ∈ (before ++ after).map ρ := List.mem_map_of_mem hz
    rw [Assignment.get?_eq_none_iff]
    simp only [Assignment.keys, List.map_cons, List.map_nil, List.mem_cons, List.not_mem_nil,
      or_false, not_or]
    exact ⟨fun h => hx (h ▸ hmem), fun h => hy (h ▸ hmem)⟩
  have hL : ((var x : Expr Unit).rename ρ).fill [(ρ x, L), (ρ y, R)] = L := by
    simp [fill, Assignment.get?]
  have hR : ((var y : Expr Unit).rename ρ).fill [(ρ x, L), (ρ y, R)] = R := by
    simp [fill, Assignment.get?, List.lookup_cons, beq_eq_false_iff_ne.mpr (Ne.symm hxy)]
  have hsides : ∀ a b : Expr Unit, ((rule a s b).rename ρ).fill [(ρ x, L), (ρ y, R)] =
      rule ((a.rename ρ).fill [(ρ x, L), (ρ y, R)]) s
        ((b.rename ρ).fill [(ρ x, L), (ρ y, R)]) := by
    intro a b
    simp [fill]
  rw [hsides, fill_rename_under hopen, fill_rename_under hopen, hL, hR]

/-- A rule unifies with the rule between two different holes. -/
theorem unifier?_rule_var {u v : String} (h : u ≠ v) :
    (rule L s R).unifier? (rule (var u) s (var v)) = some [(u, L), (v, R)] := by
  have hequations : equations (rule L s R) (rule (var u) s (var v)) =
      some [(u, L), (v, R)] := by
    simp [equations, equationsAll]
  rw [unifier?_eq, hequations]
  exact Assignment.solve_of_nodup (by simpa [Assignment.keys] using h)

/-- A rule under another symbol is applied to a rule as to any other expression. -/
theorem compose_rule_of_ne [HoleOrder] (hq : q ≠ s) (c d : Expr Unit) :
    (rule L s R).compose (rule c q d) =
      ((rule L s R).unifier? (c.rename (apart (rule (rule L s R) q (rule L s R))
        (HoleOrder.visit (rule c q d).erase)))).map fun σ =>
          (d.rename (apart (rule (rule L s R) q (rule L s R))
            (HoleOrder.visit (rule c q d).erase))).fill σ := by
  have hnone : (rule L s R).composeRules (rule c q d) = none := by
    rw [composeRules, composeRulesVisiting, if_neg hq.symm]
  rw [compose, hnone]
  dsimp only
  rw [composeRules, identity, composeRulesVisiting_rule, Option.bind_map]
  exact Option.map_eq_bind.symm

/-- Holes around a place with `n` arguments before it and `k` after it: all are different, and none
occurs at the place. -/
structure Siblings (n k : Nat) (L : Expr Unit) (before after : List String) : Prop where
  before_length : before.length = n
  after_length : after.length = k
  nodup : (before ++ after).Nodup
  fresh : ∀ z ∈ before ++ after, z ∉ L.holes

/-- Composing a rule with a congruence rule puts its sides under the term, between holes that are
new. -/
theorem compose_congruence [HoleOrder] (hq : q ≠ s) (hnodup : (x :: y :: (before ++ after)).Nodup)
    (hprime : ∀ z ∈ x :: y :: (before ++ after), prime ∉ z.toList) :
    ∃ before' after' : List String, Siblings before.length after.length L before' after' ∧
      (rule L s R).compose (congruence s q f x y before after) =
        some (rule (under f before' after' L) s (under f before' after' R)) := by
  have hholes : ∀ z, z ∈ (rule (var x) s (var y) : Expr Unit).holes ++
      (rule (under f before after (var x)) s (under f before after (var y))).holes ↔
        z ∈ x :: y :: (before ++ after) := by
    intro z
    simp only [holes_node, List.flatMap_cons, List.flatMap_nil, holes_hole, holes_under,
      List.mem_append, List.mem_cons, List.not_mem_nil, or_false]
    tauto
  have hapart : KeepsApart (apart (rule (rule L s R) q (rule L s R))
      (HoleOrder.visit (congruence s q f x y before after).erase)) (rule L s R) (rule L s R)
      (rule (var x) s (var y))
      (rule (under f before after (var x)) s (under f before after (var y))) := by
    refine keepsApart_apart (fun z hz => mem_visit_erase.mpr ?_)
      fun z hz => hprime z ((hholes z).mp hz)
    simpa [congruence] using hz
  generalize hρ : apart (rule (rule L s R) q (rule L s R))
    (HoleOrder.visit (congruence s q f x y before after).erase) = ρ at hapart
  have hdistinct : ((x :: y :: (before ++ after)).map ρ).Nodup :=
    hnodup.map_on fun z hz w hw h =>
      hapart.inj z ((hholes z).mpr hz) w ((hholes w).mpr hw) h
  have hsiblings : Siblings before.length after.length L (before.map ρ) (after.map ρ) := by
    refine ⟨List.length_map _, List.length_map _, ?_, ?_⟩
    · rw [← List.map_append]
      exact hdistinct.of_cons.of_cons
    · intro z hz hmem
      rw [← List.map_append] at hz
      obtain ⟨w, hw, rfl⟩ := List.mem_map.mp hz
      have hw' : w ∈ x :: y :: (before ++ after) := by simp [List.mem_append.mp hw]
      exact hapart.fresh w ((hholes w).mpr hw') (by simp [hmem])
  have hxy : ρ x ≠ ρ y := fun h => (List.nodup_cons.mp hdistinct).1 (h ▸ List.mem_cons_self)
  have hleft : (rule (var x) s (var y) : Expr Unit).rename ρ = rule (var (ρ x)) s (var (ρ y)) := by
    simp
  refine ⟨before.map ρ, after.map ρ, hsiblings, ?_⟩
  rw [congruence] at hρ ⊢
  rw [compose_rule_of_ne hq, hρ, hleft, unifier?_rule_var hxy, Option.map_some,
    fill_rename_sides hdistinct]

/-- A pass of reduction over a rule composed with a congruence rule. -/
theorem reduceOnce_comp_congruence [HoleOrder] {u : Expr Unit} (hu : u.reduceOnce = rule L s R)
    (hq : q ≠ s) (hnodup : (x :: y :: (before ++ after)).Nodup)
    (hprime : ∀ z ∈ x :: y :: (before ++ after), prime ∉ z.toList) :
    ∃ before' after' : List String, Siblings before.length after.length L before' after' ∧
      (comp u (congruence s q f x y before after)).reduceOnce =
        rule (under f before' after' L) s (under f before' after' R) := by
  obtain ⟨before', after', hsiblings, hcompose⟩ :=
    compose_congruence (L := L) (R := R) (f := f) hq hnodup hprime
  refine ⟨before', after', hsiblings, ?_⟩
  rw [reduceOnce_comp, hu, reduceOnce_eq_self compFree_congruence, contract, hcompose]
  rfl

/-! ## Lifted sides -/

/-- The sides `L` and `R` of a rule that has been lifted from the sides `l` and `r` to a path in
`t`: the path leads through terms, and the other arguments of each are holes that occur nowhere
else. -/
inductive Lifted (l r : Expr Unit) : Object → List Nat → Expr Unit → Expr Unit → Prop
  | here (t : Object) : Lifted l r t [] l r
  | under {m : Note} {f : String} {ts us : List Object} {c : Object} {path : List Nat}
      {before after : List String} {L R : Expr Unit} (inner : Lifted l r c path L R)
      (siblings : Siblings ts.length us.length L before after) :
      Lifted l r (.node m (.term f) (ts ++ c :: us)) (ts.length :: path)
        (under f before after L) (under f before after R)

namespace Lifted

variable {l r L R : Expr Unit} {T t : Object} {path : List Nat} {φ : String → Expr Unit}

theorem compFree (h : Lifted l r T path L R) (hl : Head.comp ∉ l.heads)
    (hr : Head.comp ∉ r.heads) : Head.comp ∉ L.heads ∧ Head.comp ∉ R.heads := by
  induction h with
  | here t => exact ⟨hl, hr⟩
  | under inner _ ih => simpa [heads_under] using ih

theorem holes_subset (h : Lifted l r T path L R) (hrl : r.holes ⊆ l.holes) :
    R.holes ⊆ L.holes := by
  induction h with
  | here t => exact hrl
  | under inner _ ih =>
    intro x hx
    simp only [holes_under, List.mem_append] at hx ⊢
    exact hx.imp_left (Or.imp_right fun h => ih h)

/-- What an instance of a lifted side says at the places of a term. -/
theorem inst_under_eq_iff {m : Note} {f : String} {ts us : List Object} {c : Object}
    {before after : List String} (hbefore : before.length = ts.length) :
    (Expr.under f before after L).inst φ = (node m (.term f) (ts ++ c :: us)).erase ↔
      before.map φ = ts.map erase ∧ L.inst φ = c.erase ∧ after.map φ = us.map erase := by
  rw [inst_under, erase_node, List.map_append, List.map_cons]
  simp only [node.injEq, true_and]
  constructor
  · intro h
    obtain ⟨hts, hcs⟩ := List.append_inj h (by simpa using hbefore)
    exact ⟨hts, List.cons.inj hcs⟩
  · rintro ⟨hts, hc, hus⟩
    rw [hts, hc, hus]

/-- An instance of the lifted left side has an instance of the left side at its place. -/
theorem inst_of_inst (h : Lifted l r T path L R) (hat : T.at? path = some t)
    (hT : L.inst φ = T.erase) : l.inst φ = t.erase := by
  induction h with
  | here T =>
    obtain rfl := Option.some.inj hat
    exact hT
  | under inner siblings ih =>
    rw [at?_node] at hat
    exact ih hat ((inst_under_eq_iff siblings.before_length).mp hT).2.1

/-- The lifted right side then has the instance of the right side there, and is the same
elsewhere. -/
theorem inst_right (h : Lifted l r T path L R) (hT : L.inst φ = T.erase) {u : Object}
    (hu : u.erase = r.inst φ) : R.inst φ = (T.replaceAt path u).erase := by
  induction h with
  | here T => exact hu.symm
  | under inner siblings ih =>
    obtain ⟨hts, hc, hus⟩ := (inst_under_eq_iff siblings.before_length).mp hT
    rw [replaceAt_node]
    exact (inst_under_eq_iff siblings.before_length).mpr ⟨hts, ih hc, hus⟩

/-- Different names can be given any values, and all others keep theirs. -/
theorem exists_values {names : List String} (hnames : names.Nodup) (values : List (Expr Unit))
    (hlength : names.length = values.length) (φ : String → Expr Unit) :
    ∃ ψ : String → Expr Unit, names.map ψ = values ∧ ∀ x, x ∉ names → ψ x = φ x := by
  induction names generalizing values with
  | nil => exact ⟨φ, (List.length_eq_zero_iff.mp hlength.symm).symm, fun x _ => rfl⟩
  | cons z names ih =>
    obtain ⟨hz, hnames⟩ := List.nodup_cons.mp hnames
    obtain ⟨v, values, rfl⟩ := List.exists_cons_of_length_eq_add_one hlength.symm
    obtain ⟨ψ, hψ, hothers⟩ := ih hnames values (by simpa using hlength)
    refine ⟨Function.update ψ z v, ?_, fun x hx => ?_⟩
    · rw [List.map_cons, Function.update_self, ← hψ]
      congr 1
      refine List.map_congr_left fun x hx => Function.update_of_ne ?_ _ _
      rintro rfl
      exact hz hx
    · rw [List.mem_cons, not_or] at hx
      rw [Function.update_of_ne hx.1, hothers x hx.2]

/-- An instance of the left side at its place makes the whole an instance of the lifted one: the new
holes take whatever stands around the path. -/
theorem exists_inst (h : Lifted l r T path L R) (hat : T.at? path = some t)
    (ht : l.inst φ = t.erase) : ∃ ψ : String → Expr Unit, L.inst ψ = T.erase := by
  induction h with
  | here T =>
    obtain rfl := Option.some.inj hat
    exact ⟨φ, ht⟩
  | @under m f ts us c path before after L R inner siblings ih =>
    obtain ⟨hbefore, hafter, hnodup, hfresh⟩ := siblings
    rw [at?_node] at hat
    obtain ⟨ψ, hψ⟩ := ih hat
    obtain ⟨χ, hχ, hothers⟩ := exists_values hnodup (ts.map erase ++ us.map erase)
      (by simp [hbefore, hafter]) ψ
    rw [List.map_append] at hχ
    obtain ⟨hts, hus⟩ := List.append_inj hχ (by simpa using hbefore)
    refine ⟨χ, (inst_under_eq_iff hbefore).mpr ⟨hts, ?_, hus⟩⟩
    rw [← hψ]
    exact inst_congr fun x hx => hothers x fun hmem => hfresh x hmem hx

section Fill

variable {l r L R : Object} {σ : Assignment Note}

/-- If the left side, filled, stands at its place, then the whole is an instance of the lifted left
side, and the lifted right side has the right side at that place, filled in the same way. -/
theorem exists_inst_of_fill (h : Lifted l.erase r.erase T path L.erase R.erase)
    (hholes : r.holes ⊆ l.holes) (hat : T.at? path = some t) (hσ : (l.fill σ).same t = true) :
    ∃ ψ : String → Expr Unit, L.inst ψ = T.erase ∧
      R.inst ψ = (T.replaceAt path (r.fill σ)).erase := by
  have hlσ := inst_of_same_fill hσ
  obtain ⟨ψ, hψ⟩ := h.exists_inst hat ((inst_erase _ l).trans hlσ)
  -- whatever the new holes take, those of `l` have the values of the filling
  have hlψ : l.inst ψ = t.erase := (inst_erase _ l).symm.trans (h.inst_of_inst hat hψ)
  have hagree := (inst_eq_inst_iff l).mp (hlσ.trans hlψ.symm)
  have hfill : (r.fill σ).erase = r.erase.inst ψ := by
    rw [← inst_var, inst_fill, inst_erase]
    exact inst_congr fun x hx => hagree x (hholes hx)
  have hright := h.inst_right hψ hfill
  rw [inst_erase] at hψ hright
  exact ⟨ψ, hψ, hright⟩

theorem exists_fill_of_inst (h : Lifted l.erase r.erase T path L.erase R.erase)
    (hat : T.at? path = some t) (hT : L.inst φ = T.erase) :
    ∃ σ : Assignment Note, (l.fill σ).same t = true := by
  refine exists_fill_iff.mpr ⟨φ, ?_⟩
  rw [← inst_erase] at hT ⊢
  exact h.inst_of_inst hat hT

end Fill

end Lifted

end Expr

namespace Functorials

open RuleProver.Expr (IsCongruence Lifted)

variable {F : Functorials} {s : String} {T : Object} {path : List Nat}

/-- The path leads through terms only, and for each of them there is a congruence rule for the
argument that the path takes, under one symbol throughout. -/
inductive Congruent (F : Functorials) (s : String) : Object → List Nat → Prop
  | here (t : Object) : Congruent F s t []
  | under {m : Note} {f : String} {before after : List Object} {c : Object} {path : List Nat}
      {g : Functorial} (get : F.get? s f before.length = some g) (outer : g.outer = s)
      (rule : IsCongruence s f before.length after.length g.rule) (inner : Congruent F s c path) :
      Congruent F s (.node m (.term f) (before ++ c :: after)) (before.length :: path)

/-- Lifting step by step along a path lifts the sides of what the rule reduces to. The steps that
are left are kept open, so that the next term can be put around what has been lifted. -/
theorem Congruent.exists_lift [HoleOrder] (h : F.Congruent s T path) {rule : Object}
    {l r : Expr Unit} (hrule : rule.erase.reduceOnce = .rule l s r) :
    ∃ (steps : List (Option String × Nat)) (u : Object) (L R : Expr Unit),
      walk T path = some steps ∧ (∀ rest, F.lift rule s (steps.reverse ++ rest) = F.lift u s rest) ∧
        Lifted l r T path L R ∧ u.erase.reduceOnce = .rule L s R := by
  induction h with
  | here t => exact ⟨[], rule, l, r, rfl, fun rest => rfl, .here t, hrule⟩
  | @under m f before after c path g get outer isCongruence inner ih =>
    obtain ⟨steps, u, L, R, hwalk, hlift, hlifted, hu⟩ := ih
    obtain ⟨q, x, y, before', after', hq, hbefore, hafter, hnodup, hprime, hg⟩ := isCongruence
    obtain ⟨as, bs, hsiblings, hreduce⟩ :=
      Expr.reduceOnce_comp_congruence (f := f) hu hq hnodup hprime
    rw [hbefore, hafter] at hsiblings
    refine ⟨(some f, before.length) :: steps, .comp u g.rule, _, _, ?_, fun rest => ?_,
      .under hlifted hsiblings, ?_⟩
    · rw [walk_cons]
      simp [Expr.children, hwalk, Expr.handle, Head.handle]
    · rw [List.reverse_cons, List.append_assoc, hlift, List.singleton_append, lift]
      simp [get, outer]
    · rw [Expr.erase_node, List.map_cons, List.map_cons, List.map_nil, hg]
      exact hreduce

variable {c : Chain} {m : Note} {l r t : Object}

/-- A rule that is lifted along a path reduces to a rule between the lifted sides. -/
theorem Congruent.exists_lifted? [HoleOrder] (h : F.Congruent s (reached c) path)
    (hl : Head.comp ∉ l.heads) (hr : Head.comp ∉ r.heads) :
    ∃ (u : Object) (m' : Note) (L R : Object),
      F.lifted? (some c) (.node m (.rule s) [l, r]) path = some u ∧
        u.reduce? = some (.node m' (.rule s) [L, R]) ∧
        Lifted l.erase r.erase (reached c) path L.erase R.erase ∧
        Head.comp ∉ L.heads ∧ Head.comp ∉ R.heads := by
  have hrule : (Expr.node m (.rule s) [l, r]).erase.reduceOnce = .rule l.erase s r.erase := by
    rw [Expr.erase_node, List.map_cons, List.map_cons, List.map_nil]
    refine Expr.reduceOnce_eq_self ?_
    simp [hl, hr]
  rw [← Expr.heads_erase] at hl hr
  obtain ⟨steps, u, L, R, hwalk, hlift, hlifted, hu⟩ := h.exists_lift hrule
  obtain ⟨hL, hR⟩ := hlifted.compFree hl hr
  have hfree : Head.comp ∉ u.reduceOnce.heads := by
    rw [← Expr.heads_erase, ← Expr.reduceOnce_erase, hu]
    simp [hL, hR]
  obtain ⟨n, hn, hnu⟩ := Expr.exists_reduce? (Expr.reduced_of_compFree hfree)
  obtain ⟨m', L', R', rfl, rfl, rfl⟩ := Expr.exists_of_erase_eq_pair (hnu.trans hu)
  rw [Expr.heads_erase] at hL hR
  refine ⟨u, m', L', R', ?_, hn, hlifted, hL, hR⟩
  have hall := hlift []
  rw [List.append_nil] at hall
  simp [lifted?, hwalk, hall, lift]

/-- **A lifted rule rewrites exactly the chosen position.** Take a chain without holes and
compositions that is no rule or one under `s`, a path through terms with congruence rules in what
the chain has reached, and a rule `l s r` without compositions whose right side has no holes of its
own. Then the rule can be lifted to the path. Using it does not break off, and it succeeds exactly
when the subexpression at the path is `l` with its holes filled. The chain then starts where it did,
and it reaches what it had reached with `r`, filled in the same way, at the path. -/
theorem lifted_rewrites_at [HoleOrder] (hground : c.reduced.Ground)
    (hcomp : Head.comp ∉ c.reduced.heads)
    (hs : c.symbol? = none ∨ c.symbol? = some s) (hl : Head.comp ∉ l.heads)
    (hr : Head.comp ∉ r.heads) (hholes : r.holes ⊆ l.holes)
    (hpath : F.Congruent s (reached c) path) (ht : (reached c).at? path = some t) :
    ∃ u, F.lifted? (some c) (.node m (.rule s) [l, r]) path = some u ∧
      (∃ outcome, c.apply u = .ok outcome) ∧
      ((∃ c' result, c.apply u = .ok (.ok (c', result))) ↔
        ∃ σ : Assignment Note, (l.fill σ).same t = true) ∧
      ∀ σ : Assignment Note, (l.fill σ).same t = true →
        ∃ b : Object, b.same ((reached c).replaceAt path (r.fill σ)) = true ∧
          c.apply u = .ok (.ok (⟨.rule c.origin s b, c.extend s u⟩,
            .about b "Applied rule, new term: []")) := by
  obtain ⟨u, m', L, R, hu, hreduce, hlifted, hL, hR⟩ := hpath.exists_lifted? (m := m) hl hr
  have hsubset : R.holes ⊆ L.holes := by
    simpa using hlifted.holes_subset (by simpa using hholes)
  have hmatch : ∀ σ : Assignment Note, (l.fill σ).same t = true →
      ∃ b : Object, b.same ((reached c).replaceAt path (r.fill σ)) = true ∧
        c.apply u = .ok (.ok (⟨.rule c.origin s b, c.extend s u⟩,
          .about b "Applied rule, new term: []")) := by
    intro σ hσ
    obtain ⟨ψ, hψ, hright⟩ := hlifted.exists_inst_of_fill hholes ht hσ
    obtain ⟨b, hb, happly⟩ := Chain.apply_of_inst hground hs hreduce hcomp hL hR hsubset hψ
    exact ⟨b, (Expr.same_iff _ _).mpr (hb.trans hright), happly⟩
  refine ⟨u, hu, ?_⟩
  by_cases hsome : ∃ σ : Assignment Note, (l.fill σ).same t = true
  · obtain ⟨σ, hσ⟩ := hsome
    obtain ⟨b, -, happly⟩ := hmatch σ hσ
    exact ⟨⟨_, happly⟩, ⟨fun _ => ⟨σ, hσ⟩, fun _ => ⟨_, _, happly⟩⟩, hmatch⟩
  · obtain ⟨result, hrefused⟩ := Chain.apply_of_not_inst hground hs hreduce
      fun ⟨φ, hφ⟩ => hsome (hlifted.exists_fill_of_inst ht hφ)
    refine ⟨⟨_, hrefused⟩, ⟨?_, fun h => absurd h hsome⟩, hmatch⟩
    rintro ⟨c', result', happly⟩
    rw [hrefused] at happly
    cases happly

/-- Functorial rules for the first argument of `f` and for that of `g`. -/
abbrev forFAndG : Functorials :=
  [⟨"=>", "f", 0, "=>", .rule (.rule (.var "x") "=>" (.var "y")) "->"
      (.rule (.term "f" [.var "x", .var "z"]) "=>" (.term "f" [.var "y", .var "z"]))⟩,
    ⟨"=>", "g", 0, "=>", .rule (.rule (.var "x") "=>" (.var "y")) "->"
      (.rule (.term "g" [.var "x"]) "=>" (.term "g" [.var "y"]))⟩]

/-- The term `f(g(h(a)), b)`. -/
abbrev fgha : Object := .term "f" [.term "g" [.term "h" [.const "a"]], .const "b"]

/-- The rule `h(#x) => #x`, used two levels down in `f(g(h(a)), b)`, gives `f(g(a), b)`. -/
theorem lifted_rewrites_inner :
    ∃ u b, forFAndG.lifted? (some ⟨fgha, fgha⟩)
        (.rule (.term "h" [.var "x"]) "=>" (.var "x")) [0, 0] = some u ∧
      b.same (.term "f" [.term "g" [.const "a"], .const "b"] : Object) = true ∧
      Chain.apply ⟨fgha, fgha⟩ u = .ok (.ok
        (⟨.rule fgha "=>" b, .comp (.rule fgha "=>" fgha) u⟩,
          .about b "Applied rule, new term: []")) := by
  have hg : forFAndG.Congruent "=>" (.term "g" [.term "h" [.const "a"]]) [0] :=
    @Congruent.under _ _ default "g" [] [] _ [] _ rfl rfl
      ⟨"->", "x", "y", [], [], by decide, rfl, rfl, by decide, by decide, rfl⟩ (.here _)
  have hf : forFAndG.Congruent "=>" (reached ⟨fgha, fgha⟩) [0, 0] :=
    @Congruent.under _ _ default "f" [] [.const "b"] _ [0] _ rfl rfl
      ⟨"->", "x", "y", [], ["z"], by decide, rfl, rfl, by decide, by decide, rfl⟩ hg
  obtain ⟨u, hu, -, -, hmatch⟩ := lifted_rewrites_at (c := ⟨fgha, fgha⟩) (m := default)
    (l := .term "h" [.var "x"]) (r := .var "x") (t := .term "h" [.const "a"]) (by decide)
    (by decide) (.inl rfl) (by decide) (by decide) (by decide) hf rfl
  obtain ⟨b, hb, happly⟩ := hmatch [("x", .const "a")] (by decide)
  exact ⟨u, b, hu, hb, happly⟩

end Functorials

end RuleProver
