import RuleProver.Object
import RuleProver.Symbol
import RuleProver.Text.Join

/-!
# Printing objects

There are two printed forms. `Object.text` writes every rule and composition in parentheses.
`Object.display` writes operators for the arithmetic and logical terms and leaves out the
parentheses that reading does not need: every operator is right associative, so a child of equal
precedence needs them on the left only.
-/

namespace RuleProver

namespace Precedence

/-- Compositions bind least. -/
def composition : Nat := 10

/-- Rules with a word symbol. -/
def wordRule : Nat := 20

/-- Rules with an operator symbol. -/
def operatorRule : Nat := 30

/-- Sums and differences. -/
def addition : Nat := 40

/-- Products. -/
def multiplication : Nat := 50

/-- Quotients. -/
def division : Nat := 60

/-- Terms with arguments, constants and holes bind most. -/
def application : Nat := 70

end Precedence

/-- The operator that a term with two arguments is displayed with, and its precedence. -/
def infixOperator? : String → Option (String × Nat)
  | "plus" => some (" + ", Precedence.addition)
  | "minus" => some (" - ", Precedence.addition)
  | "mult" => some (" * ", Precedence.multiplication)
  | "div" => some (" / ", Precedence.division)
  | "and" => some (" ∧ ", Precedence.wordRule)
  | "or" => some (" ∨ ", Precedence.wordRule)
  | _ => none

/-- The sign that a constant is displayed with. -/
def constantSign? : String → Option String
  | "naturals" => some "ℕ"
  | "integers" => some "ℤ"
  | "reals" => some "ℝ"
  | _ => none

/-- The two sides of an operator. -/
inductive Side where
  | left
  | right
deriving DecidableEq

/-- Puts parentheses around a text when asked to. -/
def parenthesized (b : Bool) (s : String) : String := if b then "(" ++ s ++ ")" else s

namespace Object

/-- Whether a term is displayed with an operator between its two arguments. -/
def isInfix : Object → Bool
  | .node _ (.term f) [_, _] => (infixOperator? f).isSome
  | _ => false

/-- The precedence of an object. That of an operator name is used only when asked for. -/
def precedence (asInfix : Bool) : Object → Nat
  | .node _ .comp _ => Precedence.composition
  | .node _ (.rule s) _ =>
    if Symbol.isWord s then Precedence.wordRule else Precedence.operatorRule
  | .node _ (.term f) _ =>
    match asInfix, infixOperator? f with
    | true, some (_, p) => p
    | _, _ => Precedence.application
  | _ => Precedence.application

/-- The precedence of an object in the form in which it is displayed. -/
def shownPrecedence (t : Object) : Nat := t.precedence t.isInfix

/-- Whether an object needs parentheses on one side of an operator of precedence `p`. -/
def needsParens (t : Object) (p : Nat) (side : Side) : Bool :=
  t.shownPrecedence < p || (t.shownPrecedence == p && side == .left)

/-- An operator between two printed operands, with the parentheses that they need. -/
def infixText (op : String) (p : Nat) (l : Object) (l' : String) (r : Object) (r' : String) :
    String :=
  parenthesized (l.needsParens p .left) l' ++ op ++ parenthesized (r.needsParens p .right) r'

mutual

/-- The fully parenthesized form of an object. -/
def text : Object → String
  | .hole _ x => "#" ++ x
  | .node _ (.rule s) (l :: r :: _) => "(" ++ text l ++ " " ++ s ++ " " ++ text r ++ ")"
  | .node _ .comp (l :: r :: _) => "(" ++ text l ++ " | " ++ text r ++ ")"
  | .node m .goal (t :: _) => "[" ++ (m.goal.bind (·.1)).getD "" ++ display 0 t ++ "]"
  | .node _ h [] => h.handle.getD ""
  | .node _ h cs => h.handle.getD "" ++ "(" ++ Text.join ", " (texts cs) ++ ")"

/-- The fully parenthesized forms of a list of objects. -/
def texts : List Object → List String
  | [] => []
  | c :: cs => text c :: texts cs

/-- The displayed form of an object inside an operator of precedence `p`. -/
def display (p : Nat) : Object → String
  | .hole _ x => "#" ++ x
  | .node m (.rule s) [l, r] =>
    let q := Object.precedence false (.node m (.rule s) [l, r])
    parenthesized (q < p) (infixText (" " ++ s ++ " ") q l (display 0 l) r (display 0 r))
  | .node _ .comp [l, r] =>
    let q := Precedence.composition
    parenthesized (q < p) (infixText " | " q l (display 0 l) r (display 0 r))
  | .node m .goal [t] => "[" ++ (m.goal.bind (·.1)).getD "" ++ display 0 t ++ "]"
  | .node _ (.term f) [] => (constantSign? f).getD f
  | .node _ (.term "not") [t] =>
    "¬" ++ parenthesized (Object.shownPrecedence t < Precedence.application)
      (display Precedence.application t)
  | .node _ (.term f) [l, r] =>
    match infixOperator? f with
    | some (op, q) => parenthesized (q < p) (infixText op q l (display 0 l) r (display 0 r))
    | none => f ++ "(" ++ Text.join ", " (displays [l, r]) ++ ")"
  | .node _ (.term f) cs => f ++ "(" ++ Text.join ", " (displays cs) ++ ")"
  | .node _ h [] => h.handle.getD ""
  | .node _ h cs => h.handle.getD "" ++ "(" ++ Text.join ", " (texts cs) ++ ")"

/-- The displayed forms of a list of objects that stand apart. -/
def displays : List Object → List String
  | [] => []
  | c :: cs => display 0 c :: displays cs

end

theorem text_rule (m : Note) (s : String) (l r : Object) :
    (text (.node m (.rule s) [l, r])).toList =
      '(' :: (l.text.toList ++ ' ' :: (s.toList ++ ' ' :: r.text.toList) ++ [')']) := by
  simp [text]

theorem display_rule (m : Note) (s : String) (l r : Object) :
    display 0 (.node m (.rule s) [l, r]) =
      infixText (" " ++ s ++ " ") (Object.precedence false (.node m (.rule s) [l, r])) l
        (l.display 0) r (r.display 0) := by
  simp [display, parenthesized]

end Object

end RuleProver
