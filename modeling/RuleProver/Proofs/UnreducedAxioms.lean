import RuleProver.Proofs.Grants
import RuleProver.Proofs.Marks

/-!
# Axioms that are not in reduced form

A check looks up the reduced form of an expression, while an axiom is listed as it was given. An
entry that is not in reduced form is never found: a reduced form is the same only as expressions
that are reduced themselves. So a check cannot tell apart two contexts that list the same reduced
expressions for the same symbols (`Expr.exists_check_of_alike`), and an axiom that is not in reduced
form does no more than to give its symbol a list, if it had none.

An axiom is therefore accepted by a check exactly when it is in reduced form, or when it would be
accepted from an empty list for its symbol just as well (`GoalState.accepted_axiom_iff`). The axiom
`A | (A => B)` is refused (`GoalState.axiom_refused`).

## Main definitions

* `Context.Alike` — contexts that list the same reduced expressions
* `Context.opened` — a context in which a symbol has a list

## Main results

* `Expr.exists_check_of_alike` — a check goes the same way in such contexts
* `GoalState.accepted_axiom_iff` — when an axiom is accepted
-/

namespace RuleProver

variable {α : Type}

/-! ## Contexts that a check cannot tell apart -/

namespace Context

/-- The context with a list for a symbol, an empty one if there was none. -/
def opened (Γ : Context α) (s : Option String) : Context α :=
  if Γ.has s then Γ else Γ ++ [(s, [])]

theorem has_opened (Γ : Context α) (s k : Option String) :
    (Γ.opened s).has k = (decide (k = s) || Γ.has k) := by
  rw [opened]
  split
  · rename_i hs
    by_cases hk : k = s <;> simp [hk, hs]
  · rw [has, get?_append, get?_cons, Option.isSome_or]
    by_cases hk : k = s <;> simp [hk, has, get?]

theorem lists_opened (Γ : Context α) (s k : Option String) (t : Expr α) :
    (Γ.opened s).lists k t = Γ.lists k t := by
  rw [opened]
  split
  · rfl
  · rename_i hs
    rw [lists, get?_append, get?_cons, lists]
    cases hk : Γ.get? k with
    | some ts => rfl
    | none => by_cases hks : k = s <;> simp [hks, get?, Expr.memOf]

variable [Inhabited α] {Γ Γ' Δ Δ' : Context α} {s : Option String} {t : Expr α} [HoleOrder]

/-- The same symbols have lists, and the same reduced expressions are listed for them. -/
structure Alike (Γ Δ : Context α) : Prop where
  has : ∀ k, Γ.has k = Δ.has k
  lists : ∀ k u, u.Reduced → Γ.lists k u = Δ.lists k u

theorem Alike.symm (h : Γ.Alike Δ) : Δ.Alike Γ :=
  ⟨fun k => (h.has k).symm, fun k u hu => (h.lists k u hu).symm⟩

theorem Alike.add (h : Γ.Alike Δ) (s : Option String) (t : Expr α) :
    (Γ.add s t).Alike (Δ.add s t) where
  has k := by rw [has_add, has_add, h.has]
  lists k u hu := by rw [Bool.eq_iff_iff, lists_add, lists_add, h.lists k u hu]

theorem Alike.within (h : Γ.Alike Δ) (h' : Γ'.Alike Δ') : (Γ'.within Γ).Alike (Δ'.within Δ) where
  has k := by rw [has_within, has_within, h.has, h'.has]
  lists k u hu := by rw [Bool.eq_iff_iff, lists_within, lists_within, h.has, h'.lists k u hu]

/-- **An entry that is not in reduced form is never found.** -/
theorem alike_add_opened (ht : ¬ t.Reduced) : (Γ.add s t).Alike (Γ.opened s) where
  has k := by rw [has_add, has_opened]
  lists k u hu := by
    rw [Bool.eq_iff_iff, lists_add, lists_opened]
    exact ⟨fun h => h.resolve_right fun hsame => ht (hu.of_same hsame.2), .inl⟩

end Context

namespace Expr

variable [Inhabited α] {Γ Γ' Δ : Context α} {s : Option String} {t : Expr α} {v : Verdict α}
  [HoleOrder]

theorem check_of_isListed (h : t.isListed s Γ = true) : t.check s Γ = some (.listed t, Γ) := by
  obtain ⟨u, hu, hlists⟩ := isListed_iff.mp h
  unfold check
  split <;> simp [hu, hlists]

/-- **A check goes the same way** in contexts that list the same reduced expressions. -/
theorem exists_check_of_alike (hΓ : Γ.Alike Δ) (h : t.check s Γ = some (v, Γ')) :
    ∃ Δ', t.check s Δ = some (v, Δ') ∧ Γ'.Alike Δ' := by
  fun_induction check t s Γ generalizing Δ v Γ' with
  | case1 m s' l r s Γ ih =>
    obtain ⟨u, hu, h⟩ := Option.bind_eq_some_iff.mp h
    rw [check, hu]
    simp only [Option.bind_eq_bind, Option.bind_some, ← hΓ.lists s u (reduced_of_reduce? hu)]
    split at h
    · rename_i hlists
      cases h
      exact ⟨Δ, if_pos hlists, hΓ⟩
    · rename_i hlists
      obtain ⟨l', hl', h⟩ := Option.bind_eq_some_iff.mp h
      obtain ⟨⟨v', Θ⟩, hr, h⟩ := Option.bind_eq_some_iff.mp h
      cases h
      obtain ⟨Θ', hr', hΘ⟩ := ih l' (hΓ.add (some s') l') hr
      rw [if_neg hlists, hl', Option.bind_some, hr']
      exact ⟨Θ'.within Δ, rfl, hΓ.within hΘ⟩
  | case2 m l r s Γ ihl ihr =>
    obtain ⟨u, hu, h⟩ := Option.bind_eq_some_iff.mp h
    rw [check, hu]
    simp only [Option.bind_eq_bind, Option.bind_some, ← hΓ.lists s u (reduced_of_reduce? hu)]
    split at h
    · rename_i hlists
      cases h
      exact ⟨Δ, if_pos hlists, hΓ⟩
    · rename_i hlists
      obtain ⟨⟨v', Θ⟩, hl, h⟩ := Option.bind_eq_some_iff.mp h
      obtain ⟨Θ', hl', hΘ⟩ := ihl hΓ hl
      rw [if_neg hlists, hl', Option.bind_some]
      dsimp only at h ⊢
      split at h
      · rename_i hv
        cases h
        exact ⟨Θ', if_pos hv, hΘ⟩
      · rename_i hv
        obtain ⟨⟨w, Ξ⟩, hr, h⟩ := Option.bind_eq_some_iff.mp h
        cases h
        obtain ⟨Ξ', hr', hΞ⟩ := ihr _ hΘ hr
        rw [if_neg hv, hr']
        exact ⟨Ξ', rfl, hΞ⟩
  | case3 t s Γ hrule hcomp =>
    obtain ⟨u, hu, h⟩ := Option.bind_eq_some_iff.mp h
    cases h
    rw [check, hu, hΓ.lists s u (reduced_of_reduce? hu)]
    · exact ⟨Δ, rfl, hΓ⟩
    · exact hrule
    · exact hcomp

theorem accepted_eq_of_alike (hΓ : Γ.Alike Δ) : t.accepted s Γ = t.accepted s Δ := by
  have hforward : ∀ {Γ Δ : Context α}, Γ.Alike Δ → t.accepted s Γ = true →
      t.accepted s Δ = true := by
    intro Γ Δ hΓ h
    obtain ⟨v, Γ', hcheck, hv⟩ := accepted_iff.mp h
    obtain ⟨Δ', hcheck', -⟩ := exists_check_of_alike hΓ hcheck
    exact accepted_iff.mpr ⟨v, Δ', hcheck', hv⟩
  rw [Bool.eq_iff_iff]
  exact ⟨hforward hΓ, hforward hΓ.symm⟩

end Expr

namespace GoalState

theorem context_addAxiom (S : GoalState) (s : Option String) (t : Object) :
    (S.addAxiom s t).context = S.context.add s t := by
  rw [context, context, addAxiom, List.foldl_append]
  rfl

/-- **When an axiom is accepted.** One in reduced form always is, since a check finds it listed. Any
other is of no use to a check of itself: it is accepted exactly if it would be without it, from the
axioms and assumptions that there were before, with a list for its symbol. -/
theorem accepted_axiom_iff [HoleOrder] (S : GoalState) (s : Option String) (t : Object) :
    t.accepted s (S.addAxiom s t).context = true ↔
      t.Reduced ∨ t.accepted s (S.context.opened s) = true := by
  rw [context_addAxiom]
  by_cases ht : t.Reduced
  · have hlisted : t.isListed s (S.context.add s t) = true :=
      Expr.isListed_iff.mpr ⟨t, ht.reduce?, Context.lists_add.mpr (.inr ⟨rfl, Expr.same_refl t⟩)⟩
    refine ⟨fun _ => .inl ht, fun _ => ?_⟩
    exact Expr.accepted_iff.mpr ⟨_, _, Expr.check_of_isListed hlisted, rfl⟩
  · rw [Expr.accepted_eq_of_alike (Context.alike_add_opened ht), or_iff_right ht]

/-- The composition `A | (A => B)`, which reduces to `B`. -/
abbrev detachment : Object := .comp (.const "A") (.rule (.const "A") "=>" (.const "B"))

/-- As an axiom of a new proof, `A | (A => B)` is refused. -/
theorem axiom_refused :
    detachment.reduce? = some (.const "B") ∧
      detachment.accepted (some "=>") (initial.addAxiom (some "=>") detachment).context = false :=
  ⟨rfl, rfl⟩

end GoalState

end RuleProver
