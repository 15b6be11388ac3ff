import RuleProver.Proofs.ComposedRules
import RuleProver.Proofs.Heads
import RuleProver.Proofs.Marks

/-!
# Composing without holes

Without holes two expressions unify exactly when they are equal, and nothing is bound. So an
expression without holes can be composed in two ways only: a rule `a s b` is chained with a rule
`b s d`, or a rule `l s d` is applied to `l`. The two never compete, since no expression is the
right side of a rule to itself (`Expr.compose_eq_some_iff`).

## Main results

* `Expr.unifier?_of_ground` — unifying expressions without holes
* `Expr.compose_eq_some_iff` — the two ways to compose
-/

namespace RuleProver

namespace Expr

variable {α : Type}

/-! ## Expressions without holes -/

@[simp] theorem ground_node {m : α} {h : Head} {cs : List (Expr α)} :
    (node m h cs).Ground ↔ ∀ c ∈ cs, c.Ground := by
  simp [Ground]

theorem ground_pair {m : α} {h : Head} {l r : Expr α} :
    (node m h [l, r]).Ground ↔ l.Ground ∧ r.Ground := by
  simp

@[simp] theorem not_ground_hole (m : α) (x : String) : ¬ (hole m x).Ground := by
  simp [Ground]

@[simp] theorem ground_erase {t : Expr α} : t.erase.Ground ↔ t.Ground := by
  rw [Ground, holes_erase, Ground]

theorem inst_of_ground {t : Expr α} (ht : t.Ground) (θ : String → Expr Unit) :
    t.inst θ = t.erase := by
  rw [← inst_var]
  refine inst_congr fun x hx => ?_
  rw [ht] at hx
  simp at hx

theorem rename_eq_self {ρ : String → String} {t : Expr α} (h : ∀ x ∈ t.holes, ρ x = x) :
    t.rename ρ = t := by
  induction t with
  | hole m x => rw [rename_hole, h x (by simp)]
  | node m k cs ih =>
    rw [rename_node]
    refine congrArg _ ((List.map_congr_left fun c hc => ih c hc fun x hx => h x ?_).trans
      (List.map_id' cs))
    rw [holes_node]
    exact List.mem_flatMap.mpr ⟨c, hc, hx⟩

theorem rename_of_ground {t : Expr α} (ht : t.Ground) (ρ : String → String) : t.rename ρ = t := by
  refine rename_eq_self fun x hx => ?_
  rw [ht] at hx
  simp at hx

/-- Filling changes nothing when none of the holes that occur is bound. -/
theorem fill_eq_self {σ : Assignment α} {t : Expr α} (h : ∀ x ∈ t.holes, σ.get? x = none) :
    t.fill σ = t := by
  rw [fill]
  induction t with
  | hole m x => rw [subst_hole, h x (by simp), Option.getD_none]
  | node m k cs ih =>
    rw [subst_node]
    refine congrArg _ ((List.map_congr_left fun c hc => ih c hc fun x hx => h x ?_).trans
      (List.map_id' cs))
    rw [holes_node]
    exact List.mem_flatMap.mpr ⟨c, hc, hx⟩

theorem fill_of_ground {t : Expr α} (ht : t.Ground) (σ : Assignment α) : t.fill σ = t := by
  refine fill_eq_self fun x hx => ?_
  rw [ht] at hx
  simp at hx

@[simp] theorem fill_nil (t : Expr α) : t.fill [] = t := fill_eq_self fun _ _ => rfl

/-! ## Unifying -/

/-- Expressions without holes have no equations to solve, but they may clash. -/
theorem equations_of_ground {a b : Expr α} (ha : a.Ground) (hb : b.Ground) :
    equations a b = if a.erase = b.erase then some [] else none := by
  have hnil : ∀ es, equations a b = some es → es = [] := by
    intro es hes
    have hperm := perm_mentions a b hes
    rw [ha, hb, List.append_nil, List.perm_nil] at hperm
    cases es with
    | nil => rfl
    | cons e es => simp at hperm
  have hiff := inst_eq_iff_equations var a b
  rw [inst_var, inst_var] at hiff
  split
  · rename_i hab
    obtain ⟨es, hes, -⟩ := hiff.mp hab
    rw [hes, hnil es hes]
  · rename_i hab
    cases hes : equations a b with
    | none => rfl
    | some es =>
      refine absurd (hiff.mpr ⟨es, hes, ?_⟩) hab
      rw [hnil es hes]
      exact solves_nil var

theorem unifier?_of_ground {a b : Expr α} (ha : a.Ground) (hb : b.Ground) :
    a.unifier? b = if a.erase = b.erase then some [] else none := by
  rw [unifier?_eq, equations_of_ground ha hb]
  split <;> rfl

/-! ## Unifying when one side has no holes -/

mutual

/-- When one side has no holes, every hole is bound to a part of that side. -/
theorem ground_of_equations : (a b : Expr α) → {es : List (Equation α)} →
    equations a b = some es → a.Ground ∨ b.Ground → ∀ e ∈ es, e.2.Ground
  | a, .hole m y, es, h, hground => by
    rw [equations] at h
    obtain rfl := Option.some.inj h
    have ha : a.Ground := hground.resolve_right (not_ground_hole m y)
    simpa using ha
  | .hole m x, .node m' k bs, es, h, hground => by
    rw [equations] at h
    obtain rfl := Option.some.inj h
    have hb : (node m' k bs).Ground := hground.resolve_left (not_ground_hole m x)
    simpa using hb
  | .node m k as, .node m' k' bs, es, h, hground => by
    rw [equations] at h
    split at h
    · exact ground_of_equationsAll as bs h (hground.imp ground_node.mp ground_node.mp)
    · contradiction

theorem ground_of_equationsAll : (as bs : List (Expr α)) → {es : List (Equation α)} →
    equationsAll as bs = some es → (∀ a ∈ as, a.Ground) ∨ (∀ b ∈ bs, b.Ground) →
    ∀ e ∈ es, e.2.Ground
  | a :: as, b :: bs, es, h, hground => by
    rw [equationsAll] at h
    obtain ⟨es₁, hes₁, h⟩ := Option.bind_eq_some_iff.mp h
    obtain ⟨es₂, hes₂, rfl⟩ := Option.map_eq_some_iff.mp h
    simp only [List.forall_mem_cons] at hground
    intro e he
    rcases List.mem_append.mp he with he | he
    · exact ground_of_equations a b hes₁ (hground.imp And.left And.left) e he
    · exact ground_of_equationsAll as bs hes₂ (hground.imp And.right And.right) e he
  | [], bs, es, h, _ => by
    obtain rfl : es = [] := by simpa [equationsAll] using h.symm
    simp
  | a :: as, [], es, h, _ => by
    obtain rfl : es = [] := by simpa [equationsAll] using h.symm
    simp

end

/-- Expressions that unify have a common instance, when one of them has no holes. -/
theorem exists_inst_eq_of_unifier? {a b : Expr α} {σ : Assignment α}
    (hσ : a.unifier? b = some σ) (hground : a.Ground ∨ b.Ground) :
    ∃ φ : String → Expr Unit, a.inst φ = b.inst φ := by
  have hvalues : ∀ e ∈ σ, e.2.Ground := by
    rw [unifier?_eq] at hσ
    obtain ⟨es, hes, hsolve⟩ := Option.bind_eq_some_iff.mp hσ
    intro e he
    have hmem : e ∈ es := (mem_of_solve hsolve e he).resolve_left List.not_mem_nil
    exact ground_of_equations a b hes hground e hmem
  have hform : σ.SolvedForm := by
    intro e he y hy
    rw [hvalues e he] at hy
    simp at hy
  exact ⟨σ.andThen var, (inst_eq_iff_of_unifier? hσ _).mpr
    (hform.solves (nodup_keys_of_unifier? hσ) var)⟩

/-! ## Sizes -/

/-- No expression is the right side of a rule to itself. -/
theorem ne_rule_self (a b : Expr Unit) (s : String) : b ≠ rule a s b := by
  intro h
  have hsize := congrArg sizeOf h
  simp only [node.sizeOf_spec, List.cons.sizeOf_spec, List.nil.sizeOf_spec] at hsize
  omega

/-! ## Composing -/

/-- The two ways in which expressions without holes compose: a rule is chained with a rule from its
right side on, or a rule is applied to its left side. -/
inductive Fires : Expr Unit → Expr Unit → Expr Unit → Prop
  | chain (a b d : Expr Unit) (s : String) : Fires (rule a s b) (rule b s d) (rule a s d)
  | apply (l d : Expr Unit) (s : String) : Fires l (rule l s d) d

theorem composeRules_eq_some_iff [HoleOrder] {A B C : Expr Unit} (hA : A.Ground) (hB : B.Ground) :
    A.composeRules B = some C ↔
      ∃ a b d s, A = rule a s b ∧ B = rule b s d ∧ C = rule a s d := by
  constructor
  · intro h
    obtain ⟨m, m', s, l, r, l', r', ρ, σ, rfl, rfl, hσ, rfl⟩ := exists_of_composeRules h
    obtain ⟨hl, hr⟩ := ground_pair.mp hA
    obtain ⟨hl', hr'⟩ := ground_pair.mp hB
    rw [rename_of_ground hl', unifier?_of_ground hr hl', erase_unit, erase_unit] at hσ
    split at hσ
    · rename_i hrl
      subst hrl
      cases hσ
      exact ⟨l, r, r', s, rfl, rfl, by rw [rename_of_ground hr', fill_nil, fill_nil]⟩
    · cases hσ
  · rintro ⟨a, b, d, s, rfl, rfl, rfl⟩
    obtain ⟨-, hb⟩ := ground_pair.mp hA
    obtain ⟨-, hd⟩ := ground_pair.mp hB
    rw [composeRules, composeRulesVisiting_rule, rename_of_ground hb, unifier?_of_ground hb hb,
      if_pos rfl, Option.map_some, rename_of_ground hd, fill_nil, fill_nil]

/-- **The two ways to compose without holes.** -/
theorem compose_eq_some_iff [HoleOrder] {l r v : Expr Unit} (hl : l.Ground) (hr : r.Ground) :
    l.compose r = some v ↔ Fires l r v := by
  have hidentity : ∀ s, (l.identity s).Ground := fun s => ground_pair.mpr ⟨hl, hl⟩
  constructor
  · intro h
    unfold compose at h
    split at h
    · rename_i c hc
      cases h
      obtain ⟨a, b, d, s, rfl, rfl, rfl⟩ := (composeRules_eq_some_iff hl hr).mp hc
      exact .chain a b d s
    · split at h
      · rename_i s cs _
        obtain ⟨c, hc, hv⟩ := Option.bind_eq_some_iff.mp h
        obtain ⟨a, b, d, s', hlab, hrule, rfl⟩ := (composeRules_eq_some_iff (hidentity s) hr).mp hc
        cases hlab
        cases hv
        rw [hrule]
        exact .apply l v s
      · cases h
  · intro h
    cases h with
    | chain a b d s =>
      rw [compose, (composeRules_eq_some_iff hl hr).mpr ⟨a, b, d, s, rfl, rfl, rfl⟩]
    | apply _ d s =>
      -- a rule that could be chained with `l s d` would have itself as its right side
      have hnone : l.composeRules (rule l s v) = none := by
        by_contra hsome
        obtain ⟨c, hc⟩ := Option.ne_none_iff_exists'.mp hsome
        obtain ⟨a, b, d', s', hlab, hrule, -⟩ := (composeRules_eq_some_iff hl hr).mp hc
        cases hrule
        exact ne_rule_self a l s hlab
      have hc := (composeRules_eq_some_iff (hidentity s) hr).mpr ⟨l, l, v, s, rfl, rfl, rfl⟩
      rw [compose, hnone]
      simp only [hc, Option.bind_some]
      rfl

theorem Fires.ground {l r v : Expr Unit} (h : Fires l r v) (hl : l.Ground) (hr : r.Ground) :
    v.Ground := by
  cases h with
  | chain a b d s => exact ground_pair.mpr ⟨(ground_pair.mp hl).1, (ground_pair.mp hr).2⟩
  | apply l d s => exact (ground_pair.mp hr).2

end Expr

end RuleProver
