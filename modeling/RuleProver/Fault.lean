import RuleProver.Files
import RuleProver.Object.Printer
import RuleProver.Token

/-!
# Faults

A directive that fails reports so and leaves a message about an object. A *fault* is different:
the directive breaks off without a result. This module lists the causes and their wording.
-/

namespace RuleProver

/-- What a step wanted of a goal when no goal was open. -/
inductive GoalPart where
  /-- The term to be built. -/
  | term
  /-- The symbol and the statement. -/
  | statement
  /-- A goal tree to put something into. -/
  | tree
deriving DecidableEq

/-- The word for a part of a goal in messages. -/
def GoalPart.label : GoalPart → String
  | .term => "children"
  | .statement => "data"
  | .tree => "type"

/-- Why a step breaks off. -/
inductive Fault where
  /-- The line cannot be read. -/
  | unreadable (e : ParseError)
  /-- A reduction did not finish within the step limit. -/
  | tooManySteps
  /-- A text of digits that is not the text of a number. -/
  | noNumber (numeral : String)
  /-- An operation got fewer arguments than it needs. -/
  | tooFewArguments (operation : String) (least got : Nat)
  /-- An operation got more arguments than it takes. -/
  | tooManyArguments (operation : String) (most got : Nat)
  /-- `Use` was given without a rule. -/
  | noRule
  /-- No goal is open. -/
  | noGoal (wanted : GoalPart)
  /-- A file was to be named by an object without a name. -/
  | noFileName
  /-- A path cannot be opened. -/
  | unopened (cause : OpenFault) (path : String)
  /-- An object has no part at a place that a message refers to. -/
  | noPart (path : String) (object : String)
  /-- An object without two children was asked for a side. -/
  | noSide (side : Side)
  /-- A node without a name was to be written, with children or without. -/
  | nameless (bare : Bool)
  /-- A node with too few children was to be written. -/
  | tooFewChildren
  /-- Nothing is left of the states of a history. -/
  | nothingLeft
deriving DecidableEq

/-- What is said about asking an absent thing for a part. -/
private def absentPart (part : String) : String :=
  "'NoneType' object has no attribute '" ++ part ++ "'"

/-- The wording of a fault. -/
def Fault.message : Fault → String
  | .unreadable e => "Parse error: " ++ e.message
  | .tooManySteps => "Max number of steps reached, reduction not finished"
  | .noNumber s => "invalid literal for int() with base 10: '" ++ s ++ "'"
  | .tooFewArguments op n got =>
    op ++ " requires at least " ++ Text.decimal n ++ " arguments, got " ++ Text.decimal got
  | .tooManyArguments op n got =>
    op ++ " accepts at most " ++ Text.decimal n ++ " arguments, got " ++ Text.decimal got
  | .noRule => "FunctorialHelper.use_forhook() missing 1 required positional argument: 'rule'"
  | .noGoal part => absentPart part.label
  | .noFileName => absentPart "replace"
  | .unopened cause path => cause.message path
  | .noPart path t => "Invalid path: " ++ path ++ " in " ++ t
  | .noSide .left => "Object does not have left attribute"
  | .noSide .right => "Object does not have right attribute"
  | .nameless true => "__str__ returned non-string (type NoneType)"
  | .nameless false => "unsupported operand type(s) for +: 'NoneType' and 'str'"
  | .tooFewChildren => "tuple index out of range"
  | .nothingLeft => "list index out of range"

namespace Expr

variable {α : Type} [Inhabited α] [HoleOrder]

/-- Reduces, or breaks off at the step limit. -/
def reduce (t : Expr α) : Except Fault (Expr α) :=
  match t.reduce? with
  | some u => .ok u
  | none => .error .tooManySteps

/-- Checks buildability, or breaks off when a reduction exceeds the step limit. -/
def checkIn (t : Expr α) (symbol : Option String) (Γ : Context α) :
    Except Fault (Verdict α × Context α) :=
  match t.check symbol Γ with
  | some r => .ok r
  | none => .error .tooManySteps

end Expr

/-- The wording of a verdict. -/
def Verdict.message : Verdict Note → String
  | .listed t => Object.text t ++ " in context"
  | .composed => ""
  | .unbuildable t => Object.text t ++ " is not buildable"

/-- An open goal for a statement, unless reducing the statement breaks off. -/
def Object.goal [HoleOrder] (symbol : Option String) (statement : Object) : Except Fault Object :=
  match Object.goal? symbol statement with
  | some g => .ok g
  | none => .error .tooManySteps

namespace Object

mutual

/-- Why an object cannot be written: a rule or a composition needs two children and a goal one, and
every other node needs a name. -/
def textFault? : Object → Option Fault
  | .hole _ _ => none
  | .node _ (.rule _) (l :: r :: _) | .node _ .comp (l :: r :: _) => (textFault? l).or (textFault? r)
  | .node _ (.rule _) [l] | .node _ .comp [l] => (textFault? l).or (some .tooFewChildren)
  | .node _ .goal (t :: _) => textFault? t
  | .node _ (.rule _) [] | .node _ .comp [] | .node _ .goal [] => some .tooFewChildren
  | .node _ (.other _ none) cs => some (.nameless cs.isEmpty)
  | .node _ _ cs => textFaultIn? cs

/-- Why an object of a list cannot be written. -/
def textFaultIn? : List Object → Option Fault
  | [] => none
  | c :: cs => (textFault? c).or (textFaultIn? cs)

end

/-- The fully parenthesized form of an object, if it can be written. -/
def text? (t : Object) : Except Fault String :=
  match textFault? t with
  | none => .ok (text t)
  | some f => .error f

end Object

/-- The object that a verdict speaks of. -/
def Verdict.subject? {α : Type} : Verdict α → Option (Expr α)
  | .listed t | .unbuildable t => some t
  | .composed => none

end RuleProver
