import RuleProver.Proofs.Equations
import RuleProver.Proofs.ReducedForm

/-!
# Marks make no difference

Unifying, composing and reducing never look at marks. So each of them may be carried out before or
after the marks are forgotten, and whatever is said about the form of a result can be proved for
expressions without marks, where being the same is being equal.

## Main results

* `Expr.unifier?_erase`, `Expr.compose_erase` — unifying and composing without marks
* `Expr.reduceOnce_erase` — reducing without marks, pass by pass
-/

namespace RuleProver

variable {α : Type}

/-- Equations, or the bindings of an assignment, with the marks forgotten. -/
def unmark (es : List (Equation α)) : List (Equation Unit) := es.map fun e => (e.1, e.2.erase)

@[simp] theorem unmark_nil : unmark ([] : List (Equation α)) = [] := rfl

@[simp] theorem unmark_cons (e : Equation α) (es : List (Equation α)) :
    unmark (e :: es) = (e.1, e.2.erase) :: unmark es := rfl

@[simp] theorem unmark_append (es fs : List (Equation α)) :
    unmark (es ++ fs) = unmark es ++ unmark fs :=
  List.map_append

/-- Bindings whose values are changed in place. -/
theorem Assignment.get?_map {β : Type} (f : Expr α → Expr β) (σ : Assignment α) (x : String) :
    Assignment.get? (σ.map fun e => (e.1, f e.2)) x = (σ.get? x).map f := by
  rw [get?, get?]
  induction σ with
  | nil => rfl
  | cons e σ ih =>
    rw [List.map_cons, List.lookup_cons, List.lookup_cons, ih]
    cases x == e.1 <;> rfl

namespace Expr

/-! ## Holes -/

@[simp] theorem erase_erase (t : Expr α) : t.erase.erase = t.erase := erase_unit t.erase

@[simp] theorem same_erase (a b : Expr α) : a.erase.same b.erase = a.same b := by
  rw [Bool.eq_iff_iff, same_iff, same_iff, erase_erase, erase_erase]

@[simp] theorem holes_erase (t : Expr α) : t.erase.holes = t.holes := by
  induction t with
  | hole m x => rw [erase_hole, holes_hole, holes_hole]
  | node m h cs ih =>
    rw [erase_node, holes_node, holes_node, List.flatMap_map]
    exact List.flatMap_congr ih

@[simp] theorem holeNames_erase (t : Expr α) : t.erase.holeNames = t.holeNames := by
  rw [holeNames, holes_erase, holeNames]

/-- The names that are visited are those of the holes, whatever the order is. -/
theorem mem_visit_erase [HoleOrder] {t : Expr α} {x : String} :
    x ∈ HoleOrder.visit t.erase ↔ x ∈ t.holes := by
  rw [(HoleOrder.visit_perm _).mem_iff, holeNames_erase, mem_holeNames]

theorem erase_rename (ρ : String → String) (t : Expr α) :
    (t.rename ρ).erase = t.erase.rename ρ := by
  induction t with
  | hole m x => rw [rename_hole, erase_hole, erase_hole, rename_hole]
  | node m h cs ih =>
    rw [rename_node, erase_node, erase_node, rename_node, List.map_map, List.map_map]
    exact congrArg _ (List.map_congr_left ih)

/-! ## Unifying -/

mutual

theorem equations_erase : (a b : Expr α) →
    equations a.erase b.erase = (equations a b).map unmark
  | a, .hole m y => by
    rw [erase_hole, equations, equations]
    rfl
  | .hole m x, .node m' k bs => by
    rw [erase_hole, erase_node, equations, equations, Option.map_some, unmark_cons, erase_node]
    rfl
  | .node m h as, .node m' k bs => by
    rw [erase_node, erase_node, equations, equations, List.length_map, List.length_map]
    split
    · exact equationsAll_erase as bs
    · rfl

theorem equationsAll_erase : (as bs : List (Expr α)) →
    equationsAll (as.map erase) (bs.map erase) = (equationsAll as bs).map unmark
  | a :: as, b :: bs => by
    rw [List.map_cons, List.map_cons, equationsAll, equationsAll, equations_erase a b,
      equationsAll_erase as bs]
    cases equations a b with
    | none => rfl
    | some es => cases equationsAll as bs <;> simp
  | [], bs => by simp [equationsAll]
  | _ :: _, [] => by simp [equationsAll]

end

theorem get?_unmark (σ : Assignment α) (x : String) :
    Assignment.get? (unmark σ) x = (σ.get? x).map erase :=
  Assignment.get?_map erase σ x

theorem bind_unmark (σ : Assignment α) (x : String) (t : Expr α) :
    Assignment.bind (unmark σ) x t.erase = ((σ.bind x t).1, unmark (σ.bind x t).2) := by
  rw [Assignment.bind, Assignment.bind, get?_unmark]
  cases σ.get? x with
  | none => simp
  | some u => simp

theorem solve_unmark (σ : Assignment α) (es : List (Equation α)) :
    Assignment.solve (unmark σ) (unmark es) = (σ.solve es).map unmark := by
  induction es generalizing σ with
  | nil => rfl
  | cons e es ih =>
    obtain ⟨x, t⟩ := e
    rw [unmark_cons, Assignment.solve, Assignment.solve, bind_unmark]
    cases hbind : σ.bind x t with
    | mk ok τ =>
      cases ok with
      | false => rfl
      | true => exact ih τ

/-- Unifying without marks. -/
theorem unifier?_erase (a b : Expr α) :
    a.erase.unifier? b.erase = (a.unifier? b).map unmark := by
  rw [unifier?_eq, unifier?_eq, equations_erase]
  cases equations a b with
  | none => rfl
  | some es => exact solve_unmark [] es

theorem erase_fill (t : Expr α) (σ : Assignment α) :
    (t.fill σ).erase = t.erase.fill (unmark σ) := by
  rw [fill, fill]
  induction t with
  | hole m x =>
    rw [subst_hole, erase_hole, subst_hole, get?_unmark]
    cases σ.get? x <;> simp
  | node m h cs ih =>
    rw [subst_node, erase_node, erase_node, subst_node, List.map_map, List.map_map]
    exact congrArg _ (List.map_congr_left ih)

/-! ## Composing -/

/-- Forgetting the marks changes neither the head of a node nor how many children it has. -/
theorem exists_of_erase_eq_pair {t : Expr α} {u : Unit} {h : Head} {l' r' : Expr Unit}
    (ht : t.erase = .node u h [l', r']) :
    ∃ m l r, t = .node m h [l, r] ∧ l.erase = l' ∧ r.erase = r' := by
  cases t with
  | hole m x => simp at ht
  | node m k cs =>
    rw [erase_node, node.injEq] at ht
    obtain ⟨-, rfl, hcs⟩ := ht
    match cs, hcs with
    | [l, r], hcs =>
      obtain ⟨hl, hr⟩ : l.erase = l' ∧ r.erase = r' := by simpa using hcs
      exact ⟨m, l, r, rfl, hl, hr⟩

theorem right?_erase (t : Expr α) : t.erase.right? = t.right?.map erase := by
  conv_rhs => unfold right?
  split
  · simp [right?]
  · rename_i hno
    unfold right?
    split
    · rename_i ht
      obtain ⟨m, l, r, rfl, -, -⟩ := exists_of_erase_eq_pair ht
      exact absurd rfl (hno _ _ _ _)
    · rfl

variable [Inhabited α] [HoleOrder]

theorem composeRules_erase (A B : Expr α) :
    A.erase.composeRules B.erase = (A.composeRules B).map erase := by
  rw [composeRules, composeRules, erase_erase]
  conv_rhs => unfold composeRulesVisiting
  split
  · rename_i m s a b m' s' c d
    have hnames := holeNames_erase (Expr.node m (.rule s) [a, b])
    simp only [erase_node, List.map_cons, List.map_nil] at hnames ⊢
    rw [composeRulesVisiting, hnames]
    split
    · dsimp only
      rw [← erase_rename _ c, unifier?_erase, Option.map_map, Option.map_map]
      refine congrArg (fun f => Option.map f _) (funext fun σ => ?_)
      simp [erase_fill, erase_rename]
    · rfl
  · rename_i hno
    unfold composeRulesVisiting
    split
    · rename_i hA hB
      obtain ⟨m, a, b, rfl, -, -⟩ := exists_of_erase_eq_pair hA
      obtain ⟨m', c, d, rfl, -, -⟩ := exists_of_erase_eq_pair hB
      exact absurd rfl (hno _ _ _ _ _ _ _ _ rfl)
    · rfl

/-- Composing without marks. -/
theorem compose_erase (a b : Expr α) : a.erase.compose b.erase = (a.compose b).map erase := by
  unfold compose
  rw [composeRules_erase]
  cases a.composeRules b with
  | some c => rfl
  | none =>
    cases b with
    | hole m x => rfl
    | node m h cs =>
      rw [erase_node]
      cases h with
      | rule s =>
        have hidentity : (a.identity s).erase = a.erase.identity s := by simp [identity]
        have hb : Expr.node () (.rule s) (cs.map erase) = (Expr.node m (.rule s) cs).erase := by
          rw [erase_node]
        dsimp only [Option.map_none]
        rw [hb, ← hidentity, composeRules_erase]
        cases (a.identity s).composeRules (.node m (.rule s) cs) with
        | none => rfl
        | some c => exact right?_erase c
      | _ => rfl

/-! ## Reducing -/

theorem contract_erase (t : Expr α) : t.erase.contract = t.contract.erase := by
  conv_rhs => unfold contract
  split
  · rename_i m l r
    simp only [erase_node, List.map_cons, List.map_nil]
    rw [contract, compose_erase]
    cases l.compose r <;> simp
  · rename_i hno
    unfold contract
    split
    · rename_i ht
      obtain ⟨m, l, r, rfl, -, -⟩ := exists_of_erase_eq_pair ht
      exact absurd rfl (hno _ _ _)
    · rfl

theorem map_erase_reducedChildren (cs : List (Expr α)) :
    (reducedChildren cs).map erase = (cs.map reduceOnce).map erase := by
  have hsame := (sameAll_iff _ _).mp (sameAll_reducedChildren cs)
  rwa [eraseAll_eq_map, eraseAll_eq_map] at hsame

/-- Without marks a step reduces every child, and then the root. -/
theorem reduceOnce_node_unit (u : Unit) (h : Head) (cs : List (Expr Unit)) :
    (node u h cs).reduceOnce = contract (.node u h (cs.map reduceOnce)) := by
  have hchildren := map_erase_reducedChildren cs
  simp only [← eraseAll_eq_map, eraseAll_unit] at hchildren
  rw [reduceOnce_node, hchildren]

/-- One step of reduction without marks. -/
theorem reduceOnce_erase (t : Expr α) : t.erase.reduceOnce = t.reduceOnce.erase := by
  induction t with
  | hole m x => rw [erase_hole, reduceOnce_hole, reduceOnce_hole, erase_hole]
  | node m h cs ih =>
    have hcs : (cs.map erase).map reduceOnce = (reducedChildren cs).map erase := by
      rw [map_erase_reducedChildren, List.map_map, List.map_map]
      exact List.map_congr_left ih
    rw [erase_node, reduceOnce_node_unit, hcs, ← erase_node m, contract_erase, ← reduceOnce_node]

/-- Being reduced does not depend on marks. -/
theorem Reduced.of_same {t u : Expr α} (ht : t.Reduced) (h : t.same u = true) : u.Reduced := by
  rw [Reduced, same_iff, ← reduceOnce_erase] at ht ⊢
  rwa [← (same_iff t u).mp h]

end Expr

end RuleProver
