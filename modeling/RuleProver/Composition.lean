import RuleProver.Unification

/-!
# Composition of rules

Two rules `a s b` and `c s d` under one symbol compose when `b` unifies with `c`; the composite
takes the instance of `a` to the instance of `d`. The holes of the second rule are first renamed
apart from those of the first: a name that clashes gets primes until it is new. In which order the
names are visited is left open (`HoleOrder`).

Composing any expression with a rule applies the rule to it: the expression is taken as the rule
from itself to itself, and the right side of the composite is the result.
-/

namespace RuleProver

/-! ## Fresh names -/

/-- Names that are at least as long as `x`. -/
private def atLeastAsLong (reserved : List String) (x : String) : List String :=
  reserved.filter fun y => decide (x.length ≤ y.length)

private theorem atLeastAsLong_prime_lt {reserved : List String} {x : String}
    (h : x ∈ reserved) :
    (atLeastAsLong reserved (x ++ "'")).length < (atLeastAsLong reserved x).length := by
  have hsub : atLeastAsLong reserved (x ++ "'") =
      (atLeastAsLong reserved x).filter fun y => decide ((x ++ "'").length ≤ y.length) := by
    simp only [atLeastAsLong, List.filter_filter]
    apply List.filter_congr
    intro y _
    simp only [String.length_append]
    by_cases hy : x.length + "'".length ≤ y.length
    · simp [hy]; omega
    · simp [hy]
  rw [hsub]
  apply List.length_filter_lt_length_iff_exists.2
  refine ⟨x, by simp [atLeastAsLong, h], ?_⟩
  simp only [String.length_append, decide_eq_true_eq, Nat.not_le]
  exact Nat.lt_add_of_pos_right (by decide)

/-- The name `x` with as many primes as it takes to differ from every reserved name. Each prime
makes the name longer, and only finitely many reserved names are as long. -/
def freshName (reserved : List String) (x : String) : String :=
  if x ∈ reserved then freshName reserved (x ++ "'") else x
termination_by (atLeastAsLong reserved x).length
decreasing_by exact atLeastAsLong_prime_lt ‹_›

/-- New names for those of `names` that are reserved, visited in the given order. A name handed
out is reserved from then on. -/
def freshen (reserved : List String) : List String → List (String × String)
  | [] => []
  | x :: names =>
    if x ∈ reserved then
      let y := freshName reserved x
      (x, y) :: freshen (y :: reserved) names
    else freshen reserved names

/-- A renaming as a function: names without a new name stay. -/
def renameBy (ρ : List (String × String)) (x : String) : String := (ρ.lookup x).getD x

/-! ## Visiting names -/

/-- An order in which the hole names of an expression are visited when they are renamed. It may
depend on the expression in any way, but not on its marks. -/
class HoleOrder where
  /-- The hole names of an expression as they are visited. -/
  visit : Expr Unit → List String
  /-- Every hole name is visited once. -/
  visit_perm : ∀ t, (visit t).Perm t.holeNames

/-- Unless another order is given, names are visited in the order of their first occurrence. -/
instance HoleOrder.firstOccurrence : HoleOrder := ⟨Expr.holeNames, fun _ => .refl _⟩

namespace Expr

variable {α : Type} [Inhabited α] [HoleOrder]

/-! ## Composing -/

/-- Composes two rules, visiting the hole names of the second in the order `names`. -/
def composeRulesVisiting (names : List String) : Expr α → Expr α → Option (Expr α)
  | .node m (.rule s) [a, b], .node _ (.rule s') [c, d] =>
    if s = s' then
      let ρ := renameBy (freshen (Expr.node m (.rule s) [a, b]).holeNames names)
      let c' := c.rename ρ
      let d' := d.rename ρ
      (b.unifier? c').map fun σ => rule (a.fill σ) s (d'.fill σ)
    else none
  | _, _ => none

/-- Composes two rules under one symbol. -/
def composeRules (a b : Expr α) : Option (Expr α) :=
  composeRulesVisiting (HoleOrder.visit b.erase) a b

/-- Composes two rules, or applies the rule `b` to the expression `a`. -/
def compose (a b : Expr α) : Option (Expr α) :=
  match composeRules a b with
  | some c => some c
  | none =>
    match b with
    | .node _ (.rule s) _ => (composeRules (a.identity s) b).bind right?
    | _ => none

end Expr

end RuleProver
