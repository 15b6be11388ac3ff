import Mathlib.Algebra.Order.BigOperators.Group.List
import Mathlib.Algebra.Order.Group.Nat
import RuleProver.Proofs.Instance

/-!
# Generic instances

A hole can be filled with a constant that occurs nowhere else. Such an instance is *generic*: since
nothing distinguishes the constant from a hole, what holds of the generic instance holds with holes
in place of the constants. `exists_generic` packages this as a pair of maps, one that freezes holes
into constants and one that melts the constants into holes again.

The constants are told from those that occur already by the length of their names.
-/

namespace RuleProver

variable {α : Type}

namespace Expr

/-- A constant for the hole `#x`, with a name of at least `k` characters. -/
def freeze (k : Nat) (x : String) : Expr Unit :=
  const (String.ofList (List.replicate k '_') ++ x)

/-- The hole that a node stands for: a constant with a name of at least `k` characters. -/
def frozenHole? (k : Nat) : Head → List (Expr Unit) → Option String
  | .term f, [] => if k ≤ f.length then some (String.ofList (f.toList.drop k)) else none
  | _, _ => none

mutual

/-- Puts the hole back in place of each constant with a name of at least `k` characters. -/
def melt (k : Nat) : Expr Unit → Expr Unit
  | .hole _ x => .hole () x
  | .node _ h cs =>
    match frozenHole? k h cs with
    | some x => .hole () x
    | none => .node () h (meltAll k cs)

/-- Melts the members of a list. -/
def meltAll (k : Nat) : List (Expr Unit) → List (Expr Unit)
  | [] => []
  | c :: cs => melt k c :: meltAll k cs

end

theorem meltAll_eq_map (k : Nat) (cs : List (Expr Unit)) : meltAll k cs = cs.map (melt k) := by
  induction cs with
  | nil => rfl
  | cons c cs ih => rw [meltAll, ih, List.map_cons]

theorem ground_freeze (k : Nat) (x : String) : (freeze k x).Ground := by
  simp [Ground, freeze]

@[simp] theorem melt_freeze (k : Nat) (x : String) : melt k (freeze k x) = var x := by
  have hlen : k ≤ (String.ofList (List.replicate k '_') ++ x).length := by
    simp
  have hdrop : (String.ofList (List.replicate k '_') ++ x).toList.drop k = x.toList := by
    simp
  rw [freeze, melt, frozenHole?, if_pos hlen, hdrop, String.ofList_toList]

/-- The names of the terms that occur are shorter than `k`. -/
def NamesBelow (k : Nat) (t : Expr α) : Prop := ∀ f, Head.term f ∈ t.heads → f.length < k

theorem frozenHole?_eq_none {k : Nat} {h : Head} (hh : ∀ f, h = .term f → f.length < k)
    (cs : List (Expr Unit)) : frozenHole? k h cs = none := by
  rw [frozenHole?.eq_def]
  split
  · rename_i f
    rw [if_neg (Nat.not_le.mpr (hh f rfl))]
  · rfl

/-- Melting goes past all that occurs in an expression with shorter names, down to the values of
its holes. -/
theorem melt_inst {k : Nat} {t : Expr α} (h : t.NamesBelow k) (θ : String → Expr Unit) :
    melt k (t.inst θ) = t.inst fun x => melt k (θ x) := by
  induction t with
  | hole m x => simp
  | node m hd cs ih =>
    have hhd : ∀ f, hd = .term f → f.length < k := fun f hf => h f (by simp [hf])
    rw [inst_node, inst_node, melt, frozenHole?_eq_none hhd, meltAll_eq_map, List.map_map]
    refine congrArg (node () hd) (List.map_congr_left fun c hc => ih c hc fun f hf => h f ?_)
    rw [heads_node]
    exact List.mem_cons_of_mem _ (List.mem_flatMap.mpr ⟨c, hc, hf⟩)

theorem exists_namesBelow (ts : List (Expr α)) : ∃ k, ∀ t ∈ ts, t.NamesBelow k := by
  refine ⟨((ts.flatMap heads).map fun h => (h.handle.getD "").length).sum + 1, ?_⟩
  intro t ht f hf
  refine Nat.lt_succ_of_le (List.single_le_sum (fun _ _ => Nat.zero_le _) _ ?_)
  exact List.mem_map.mpr ⟨.term f, List.mem_flatMap.mpr ⟨t, ht, hf⟩, rfl⟩

/-- **Generic values for the holes of some expressions.** They have no holes, and can be turned
into holes again in every instance of the expressions. -/
theorem exists_generic (ts : List (Expr α)) :
    ∃ (κ : String → Expr Unit) (μ : Expr Unit → Expr Unit),
      (∀ x, (κ x).Ground) ∧ (∀ x, μ (κ x) = var x) ∧
        ∀ t ∈ ts, ∀ θ, μ (t.inst θ) = t.inst fun x => μ (θ x) := by
  obtain ⟨k, hk⟩ := exists_namesBelow ts
  exact ⟨freeze k, melt k, ground_freeze k, melt_freeze k, fun t ht θ => melt_inst (hk t ht) θ⟩

end Expr

end RuleProver
