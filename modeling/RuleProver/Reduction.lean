import RuleProver.Composition

/-!
# Reduction

One step of reduction works from the leaves to the root and carries out every composition that
succeeds on the way. Reduction repeats such steps until one changes nothing. A rule can feed
itself for ever, so the number of steps is limited.
-/

namespace RuleProver

namespace Expr

variable {α : Type} [Inhabited α] [HoleOrder]

/-- Carries out a composition at the root, if there is one that succeeds. -/
def contract : Expr α → Expr α
  | .node m .comp [l, r] => (l.compose r).getD (.node m .comp [l, r])
  | t => t

mutual

/-- One parallel step: the children first, then the root. When the step changes nothing below the
root but marks, the children stay as they are. -/
def reduceOnce : Expr α → Expr α
  | .hole m x => .hole m x
  | .node m h cs =>
    let cs' := reduceOnceAll cs
    contract (.node m h (if sameAll cs' cs then cs else cs'))

/-- One parallel step in every member of a list. -/
def reduceOnceAll : List (Expr α) → List (Expr α)
  | [] => []
  | c :: cs => reduceOnce c :: reduceOnceAll cs

end

/-- Reduces with at most `limit` steps, the last of which must change nothing. -/
def reduceWithin : Nat → Expr α → Option (Expr α)
  | 0, _ => none
  | limit + 1, t =>
    let u := t.reduceOnce
    if u.same t then some t else reduceWithin limit u

/-- The number of steps that a reduction may take. -/
def stepLimit : Nat := 100

/-- Reduces within the step limit. -/
def reduce? (t : Expr α) : Option (Expr α) := t.reduceWithin stepLimit

end Expr

end RuleProver
