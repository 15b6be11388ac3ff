import RuleProver.Fault

/-!
# Numerals

A number is written either as a constant whose name is its decimal notation, or as a nest of
successors `S(S(zero))`. Directives work on successors; what they answer is shown in decimal
notation again.
-/

namespace RuleProver

namespace Expr

variable {α : Type}

/-- Reads the name of a constant as a number. A name that is not shaped like a numeral stands for
no number; one that is shaped so and has no value is a fault. -/
def nameValue (name : String) : Except Fault (Option Nat) :=
  if Text.isNumeral name then
    match Text.readNat? name with
    | some n => .ok (some n)
    | none => .error (.noNumber name)
  else .ok none

/-- The number that an expression stands for, in either notation or a mix of both. -/
def integer? : Expr α → Except Fault (Option Nat)
  | .node _ (.term name) [] => do
    match ← nameValue name with
    | some n => return some n
    | none => return if name = "zero" then some 0 else none
  | .node _ (.term "S") [t] => do return (← integer? t).map (· + 1)
  | _ => return none

/-- The nest of `n` successors over zero. -/
def successors [Inhabited α] : Nat → Expr α
  | 0 => const "zero"
  | n + 1 => term "S" [successors n]

mutual

/-- Turns decimal constants into nests of successors. -/
def toSuccessors [Inhabited α] : Expr α → Except Fault (Expr α)
  | .hole m x => return .hole m x
  | .node m (.term name) [] => do
    match ← nameValue name with
    | some n => return (successors n).withMark m
    | none => return .node m (.term name) []
  | .node m h cs => return .node m h (← toSuccessorsAll cs)

/-- Turns the decimal constants of a list of expressions into nests of successors. -/
def toSuccessorsAll [Inhabited α] : List (Expr α) → Except Fault (List (Expr α))
  | [] => return []
  | c :: cs => do
    let c ← toSuccessors c
    return c :: (← toSuccessorsAll cs)

end

/-- The number of successors in a nest of successors over zero. -/
def successorDepth? : Expr α → Option Nat
  | .node _ (.term "zero") [] => some 0
  | .node _ (.term "S") [t] => (successorDepth? t).map (· + 1)
  | _ => none

mutual

/-- Turns nests of successors into decimal constants. -/
def toDecimals [Inhabited α] : Expr α → Expr α
  | .hole m x => .hole m x
  | .node m h cs =>
    match successorDepth? (.node m h cs) with
    | some n => .node m (.term (Text.decimal n)) []
    | none => .node m h (toDecimalsAll cs)

/-- Turns the nests of successors of a list of expressions into decimal constants. -/
def toDecimalsAll [Inhabited α] : List (Expr α) → List (Expr α)
  | [] => []
  | c :: cs => toDecimals c :: toDecimalsAll cs

end

end Expr

end RuleProver
