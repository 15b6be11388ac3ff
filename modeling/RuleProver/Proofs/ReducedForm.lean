import RuleProver.Reduction
import RuleProver.Proofs.Instance

/-!
# Reduced forms

Reducing an expression ends at an expression that one more step does not change. Such an expression
is its own reduced form, and so are the sides of a rule that is reduced.

## Main definitions

* `Expr.Reduced` — one step of reduction changes nothing

## Main results

* `Expr.reduced_of_reduce?` — what reducing returns is reduced
* `Expr.Reduced.reduce?` — a reduced expression is its own reduced form
* `Expr.reduced_of_compFree` — so is every expression without compositions
* `Expr.Reduced.sides` — the sides of a reduced rule are reduced
-/

namespace RuleProver

variable [HoleOrder]

namespace Expr

variable {α : Type} [Inhabited α]

/-! ## One step -/

theorem reduceOnceAll_eq_map (cs : List (Expr α)) : reduceOnceAll cs = cs.map reduceOnce := by
  induction cs with
  | nil => rw [reduceOnceAll, List.map_nil]
  | cons c cs ih => rw [reduceOnceAll, ih, List.map_cons]

theorem contract_of_ne {m : α} {h : Head} {cs : List (Expr α)} (hh : h ≠ .comp) :
    contract (.node m h cs) = .node m h cs := by
  unfold contract
  split
  · rename_i heq
    exact absurd (node.inj heq).2.1 hh
  · rfl

/-- The children that a step leaves at a node, before the root is dealt with. -/
def reducedChildren (cs : List (Expr α)) : List (Expr α) :=
  if sameAll (cs.map reduceOnce) cs then cs else cs.map reduceOnce

@[simp] theorem reduceOnce_hole (m : α) (x : String) :
    (Expr.hole m x).reduceOnce = .hole m x := by
  rw [reduceOnce]

theorem reduceOnce_node (m : α) (h : Head) (cs : List (Expr α)) :
    (node m h cs).reduceOnce = contract (.node m h (reducedChildren cs)) := by
  rw [reduceOnce, reduceOnceAll_eq_map, reducedChildren]

/-- The children agree with those of a step in every one of them. -/
theorem sameAll_reducedChildren (cs : List (Expr α)) :
    sameAll (reducedChildren cs) (cs.map reduceOnce) = true := by
  rw [reducedChildren]
  split
  · rename_i h
    rw [sameAll_iff] at h ⊢
    exact h.symm
  · rw [sameAll_iff]

/-! ## Reduced expressions -/

/-- One step of reduction changes nothing, marks apart. -/
def Reduced (t : Expr α) : Prop := t.reduceOnce.same t = true

instance (t : Expr α) : Decidable t.Reduced := inferInstanceAs (Decidable (_ = true))

theorem reduced_of_reduceWithin {limit : Nat} {t u : Expr α}
    (h : t.reduceWithin limit = some u) : u.Reduced := by
  induction limit generalizing t with
  | zero => contradiction
  | succ limit ih =>
    rw [reduceWithin] at h
    split at h
    · rename_i hsame
      cases h
      exact hsame
    · exact ih h

/-- **What reducing returns is reduced.** -/
theorem reduced_of_reduce? {t u : Expr α} (h : t.reduce? = some u) : u.Reduced :=
  reduced_of_reduceWithin h

/-- A reduced expression is its own reduced form. -/
theorem Reduced.reduce? {t : Expr α} (h : t.Reduced) : t.reduce? = some t :=
  if_pos h

/-- A step changes nothing where there are no compositions. -/
theorem reduceOnce_eq_self {t : Expr α} (ht : Head.comp ∉ t.heads) : t.reduceOnce = t := by
  induction t with
  | hole m x => rw [reduceOnce_hole]
  | node m h cs ih =>
    simp only [heads_node, List.mem_cons, List.mem_flatMap, not_or, not_exists, not_and] at ht
    have hcs : cs.map reduceOnce = cs :=
      (List.map_congr_left fun c hc => ih c hc (ht.2 c hc)).trans (List.map_id' cs)
    rw [reduceOnce_node, reducedChildren, hcs, ite_self, contract_of_ne (Ne.symm ht.1)]

theorem reduced_of_compFree {t : Expr α} (ht : Head.comp ∉ t.heads) : t.Reduced := by
  rw [Reduced, reduceOnce_eq_self ht]
  exact same_refl t

/-- A step in a rule only steps in its sides. -/
theorem Reduced.sides {m : α} {s : String} {l r : Expr α}
    (h : (node m (.rule s) [l, r]).Reduced) : l.Reduced ∧ r.Reduced := by
  rw [Reduced, reduceOnce_node, contract_of_ne (Head.noConfusion ·), same, Bool.and_eq_true,
    sameAll_iff] at h
  have hchildren := (sameAll_iff _ _).mp (sameAll_reducedChildren [l, r])
  rw [h.2] at hchildren
  simp only [eraseAll_eq_map, List.map_cons, List.map_nil, List.cons.injEq, and_true] at hchildren
  exact ⟨(same_iff _ _).mpr hchildren.1.symm, (same_iff _ _).mpr hchildren.2.symm⟩

end Expr

end RuleProver
