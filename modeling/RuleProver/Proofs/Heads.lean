import RuleProver.Proofs.Equations
import RuleProver.Proofs.ReducedForm

/-!
# Heads

Composing and reducing rearrange what they are given: every head in the result of a composition
stands in one of its sides already, and a reduced expression has no head that the expression did
not have. In particular no open goal comes up by reduction.

## Main results

* `Expr.mem_heads_compose` — composing two expressions brings in no new heads
* `Expr.heads_reduce?_subset` — neither does reducing an expression
* `Expr.GoalFree.reduce?` — what is free of open goals stays so
-/

namespace RuleProver

variable {α : Type}

namespace Expr

/-! ## Filling holes -/

theorem heads_rename (ρ : String → String) (t : Expr α) : (t.rename ρ).heads = t.heads := by
  induction t with
  | hole m x => rw [rename_hole, heads_hole, heads_hole]
  | node m h cs ih =>
    rw [rename_node, heads_node, heads_node, List.flatMap_map]
    exact congrArg _ (List.flatMap_congr fun c hc => ih c hc)

theorem heads_withMark (m : α) (t : Expr α) : (t.withMark m).heads = t.heads := by
  cases t <;> simp [withMark]

theorem mem_heads_subst {σ : String → Option (Expr α)} {h : Head} {t : Expr α}
    (hh : h ∈ (t.subst σ).heads) : h ∈ t.heads ∨ ∃ x u, σ x = some u ∧ h ∈ u.heads := by
  induction t with
  | hole m x =>
    rw [subst_hole] at hh
    cases hx : σ x with
    | none => simp [hx] at hh
    | some u =>
      rw [hx, Option.getD_some] at hh
      exact .inr ⟨x, u, hx, hh⟩
  | node m k cs ih =>
    rw [subst_node, heads_node, List.mem_cons, List.mem_flatMap] at hh
    rw [heads_node, List.mem_cons, List.mem_flatMap]
    rcases hh with rfl | ⟨c', hc', hh⟩
    · exact .inl (.inl rfl)
    · obtain ⟨c, hc, rfl⟩ := List.mem_map.mp hc'
      exact (ih c hc hh).imp_left fun hhc => .inr ⟨c, hc, hhc⟩

/-! ## Unifying -/

mutual

theorem mem_heads_of_equations {h : Head} : (a b : Expr α) → {es : List (Equation α)} →
    equations a b = some es → ∀ e ∈ es, h ∈ e.2.heads → h ∈ a.heads ∨ h ∈ b.heads
  | a, .hole m y, es, hes => by
    rw [equations] at hes
    obtain rfl := Option.some.inj hes
    simp
  | .hole m x, .node m' k bs, es, hes => by
    rw [equations] at hes
    obtain rfl := Option.some.inj hes
    simp
  | .node m k as, .node m' k' bs, es, hes => by
    rw [equations] at hes
    split at hes
    · intro e he hh
      rw [heads_node, heads_node, List.mem_cons, List.mem_cons]
      exact (mem_heads_of_equationsAll as bs hes e he hh).imp .inr .inr
    · contradiction

theorem mem_heads_of_equationsAll {h : Head} : (as bs : List (Expr α)) →
    {es : List (Equation α)} → equationsAll as bs = some es → ∀ e ∈ es, h ∈ e.2.heads →
    h ∈ as.flatMap heads ∨ h ∈ bs.flatMap heads
  | a :: as, b :: bs, es, hes => by
    rw [equationsAll] at hes
    obtain ⟨es₁, hes₁, hes⟩ := Option.bind_eq_some_iff.mp hes
    obtain ⟨es₂, hes₂, rfl⟩ := Option.map_eq_some_iff.mp hes
    intro e he hh
    rw [List.flatMap_cons, List.flatMap_cons, List.mem_append, List.mem_append]
    rcases List.mem_append.mp he with he | he
    · exact (mem_heads_of_equations a b hes₁ e he hh).imp .inl .inl
    · exact (mem_heads_of_equationsAll as bs hes₂ e he hh).imp .inr .inr
  | [], bs, es, hes => by
    rw [equationsAll] at hes
    · obtain rfl := Option.some.inj hes
      simp
    · simp
  | a :: as, [], es, hes => by
    rw [equationsAll] at hes
    · obtain rfl := Option.some.inj hes
      simp
    · simp

end

theorem mem_of_solve {σ τ : Assignment α} {es : List (Equation α)} (h : σ.solve es = some τ) :
    ∀ e ∈ τ, e ∈ σ ∨ e ∈ es := by
  induction es generalizing σ with
  | nil =>
    obtain rfl := Option.some.inj h
    exact fun e he => .inl he
  | cons e₀ es ih =>
    obtain ⟨x, t⟩ := e₀
    rw [Assignment.solve] at h
    split at h
    · rename_i σ' hbind
      intro e he
      rcases ih h e he with he | he
      · obtain ⟨u, -, -, rfl⟩ | ⟨-, rfl⟩ := Assignment.bind_cases hbind
        · exact .inl he
        · rcases List.mem_append.mp he with he | he
          · exact .inl he
          · exact .inr (List.mem_cons.mpr (.inl (List.mem_singleton.mp he)))
      · exact .inr (List.mem_cons_of_mem _ he)
    · contradiction

/-- Filling an expression with a unifier of `a` and `b` brings in heads of `a` and `b` at most. -/
theorem mem_heads_fill {a b t : Expr α} {σ : Assignment α} (hσ : a.unifier? b = some σ) {h : Head}
    (hh : h ∈ (t.fill σ).heads) : h ∈ t.heads ∨ h ∈ a.heads ∨ h ∈ b.heads := by
  rcases mem_heads_subst hh with hh | ⟨x, u, hu, hh⟩
  · exact .inl hh
  · rw [unifier?_eq] at hσ
    obtain ⟨es, hes, hσ⟩ := Option.bind_eq_some_iff.mp hσ
    rcases mem_of_solve hσ (x, u) (Assignment.mem_of_get? hu) with he | he
    · simp at he
    · exact .inr (mem_heads_of_equations a b hes (x, u) he hh)

/-! ## Composing and reducing -/

theorem heads_right?_subset {t u : Expr α} (h : t.right? = some u) : u.heads ⊆ t.heads := by
  unfold right? at h
  split at h
  · cases h
    intro k hk
    simp [hk]
  · contradiction

variable [Inhabited α] [HoleOrder]

/-- A composite of two rules is made of their outer sides. -/
theorem exists_of_composeRules {a b c : Expr α} (h : a.composeRules b = some c) :
    ∃ (m m' : α) (s : String) (l r l' r' : Expr α) (ρ : String → String) (σ : Assignment α),
      a = .node m (.rule s) [l, r] ∧ b = .node m' (.rule s) [l', r'] ∧
        r.unifier? (l'.rename ρ) = some σ ∧ c = rule (l.fill σ) s ((r'.rename ρ).fill σ) := by
  rw [composeRules] at h
  unfold composeRulesVisiting at h
  split at h
  · rename_i m s l r m' s' l' r'
    split at h
    · rename_i hs
      obtain ⟨σ, hσ, rfl⟩ := Option.map_eq_some_iff.mp h
      exact ⟨m, m', s, l, r, l', r', _, σ, rfl, hs ▸ rfl, hσ, rfl⟩
    · contradiction
  · contradiction

theorem mem_heads_composeRules {a b c : Expr α} (hc : a.composeRules b = some c) {h : Head}
    (hh : h ∈ c.heads) : h ∈ a.heads ∨ h ∈ b.heads := by
  obtain ⟨m, m', s, l, r, l', r', ρ, σ, rfl, rfl, hσ, rfl⟩ := exists_of_composeRules hc
  have hl := mem_heads_fill (t := l) hσ (h := h)
  have hr := mem_heads_fill (t := r'.rename ρ) hσ (h := h)
  simp only [heads_rename] at hl hr
  simp only [heads_node, List.flatMap_cons, List.flatMap_nil, List.append_nil, List.mem_cons,
    List.mem_append] at hh ⊢
  rcases hh with rfl | hh | hh
  · exact .inl (.inl rfl)
  · rcases hl hh with hh | hh | hh
    · exact .inl (.inr (.inl hh))
    · exact .inl (.inr (.inr hh))
    · exact .inr (.inr (.inl hh))
  · rcases hr hh with hh | hh | hh
    · exact .inr (.inr (.inr hh))
    · exact .inl (.inr (.inr hh))
    · exact .inr (.inr (.inl hh))

/-- Composing two expressions brings in no new heads. -/
theorem mem_heads_compose {a b c : Expr α} (hc : a.compose b = some c) {h : Head}
    (hh : h ∈ c.heads) : h ∈ a.heads ∨ h ∈ b.heads := by
  unfold compose at hc
  split at hc
  · rename_i c' hc'
    cases hc
    exact mem_heads_composeRules hc' hh
  · split at hc
    · rename_i m s cs
      obtain ⟨c', hc', hright⟩ := Option.bind_eq_some_iff.mp hc
      rcases mem_heads_composeRules hc' (heads_right?_subset hright hh) with hh | hh
      · -- the rule from `a` to itself has the symbol of `b`
        simp only [identity, heads_node, List.flatMap_cons, List.flatMap_nil, List.append_nil,
          List.mem_cons, List.mem_append, or_self] at hh
        rcases hh with rfl | hh
        · exact .inr (by simp)
        · exact .inl hh
      · exact .inr hh
    · contradiction

theorem heads_contract_subset (t : Expr α) : t.contract.heads ⊆ t.heads := by
  unfold contract
  split
  · rename_i m l r
    cases hc : l.compose r with
    | none => exact List.Subset.refl _
    | some c =>
      intro k hk
      have := mem_heads_compose hc hk
      simp [this]
  · exact List.Subset.refl _

theorem heads_reduceOnce_subset (t : Expr α) : t.reduceOnce.heads ⊆ t.heads := by
  induction t with
  | hole m x => rw [reduceOnce_hole]; exact List.Subset.refl _
  | node m h cs ih =>
    rw [reduceOnce_node]
    refine List.Subset.trans (heads_contract_subset _) ?_
    rw [reducedChildren]
    split
    · exact List.Subset.refl _
    · rw [heads_node, heads_node, List.flatMap_map]
      refine List.cons_subset_cons _ fun k hk => ?_
      obtain ⟨c, hc, hk⟩ := List.mem_flatMap.mp hk
      exact List.mem_flatMap.mpr ⟨c, hc, ih c hc hk⟩

theorem heads_reduceWithin_subset {limit : Nat} {t u : Expr α}
    (h : t.reduceWithin limit = some u) : u.heads ⊆ t.heads := by
  induction limit generalizing t with
  | zero => contradiction
  | succ limit ih =>
    rw [reduceWithin] at h
    split at h
    · cases h
      exact List.Subset.refl _
    · exact List.Subset.trans (ih h) (heads_reduceOnce_subset t)

/-- **Reducing brings in no new heads.** -/
theorem heads_reduce?_subset {t u : Expr α} (h : t.reduce? = some u) : u.heads ⊆ t.heads :=
  heads_reduceWithin_subset h

end Expr

/-! ## Expressions without open goals -/

namespace Expr

/-- No open goal stands anywhere in the expression. -/
def GoalFree (t : Expr α) : Prop := Head.goal ∉ t.heads

instance (t : Expr α) : Decidable t.GoalFree := inferInstanceAs (Decidable (_ ∉ _))

@[simp] theorem goalFree_hole (m : α) (x : String) : (hole m x).GoalFree := by
  simp [GoalFree]

@[simp] theorem goalFree_node {m : α} {h : Head} {cs : List (Expr α)} :
    (node m h cs).GoalFree ↔ h ≠ .goal ∧ ∀ c ∈ cs, c.GoalFree := by
  simp [GoalFree, eq_comm]

theorem goalFree_pair {m : α} {h : Head} {l r : Expr α} :
    (node m h [l, r]).GoalFree ↔ h ≠ .goal ∧ l.GoalFree ∧ r.GoalFree := by
  simp

theorem GoalFree.withMark {t : Expr α} (ht : t.GoalFree) (m : α) : (t.withMark m).GoalFree := by
  rwa [GoalFree, heads_withMark]

theorem GoalFree.reduce? [HoleOrder] [Inhabited α] {t u : Expr α} (ht : t.GoalFree)
    (h : t.reduce? = some u) :
    u.GoalFree :=
  fun hu => ht (heads_reduce?_subset h hu)

/-- Filling an expression with a unifier of goal-free expressions. -/
theorem GoalFree.fill {a b t : Expr α} {σ : Assignment α} (ht : t.GoalFree) (ha : a.GoalFree)
    (hb : b.GoalFree) (hσ : a.unifier? b = some σ) : (t.fill σ).GoalFree := by
  intro hh
  rcases mem_heads_fill hσ hh with h | h | h
  · exact ht h
  · exact ha h
  · exact hb h

end Expr

end RuleProver
