import RuleProver.Chain
import RuleProver.Numeral

/-!
# Functorial rules

A functorial rule lifts a rule on an argument of a term to a rule on the whole term. It is
registered for the symbol of the rule to be lifted, the name of the term and the position of the
argument, and it has a symbol of its own for the lifted rule. A rule is used at a path of
positions by lifting it step by step, from the innermost term outwards.
-/

namespace RuleProver

/-- A registered functorial rule. -/
structure Functorial where
  /-- The symbol of the rules that are lifted. -/
  inner : String
  /-- The name of the term around the argument. -/
  name : String
  /-- The position of the argument. -/
  position : Nat
  /-- The symbol of the lifted rule. -/
  outer : String
  /-- The rule that lifts. -/
  rule : Object

/-- The functorial rules, in the order in which they were registered last. -/
abbrev Functorials := List Functorial

namespace Functorial

/-- Whether a functorial rule is registered for a symbol, a term and a position. -/
def isFor (f : Functorial) (inner name : String) (position : Nat) : Bool :=
  f.inner = inner ∧ f.name = name ∧ f.position = position

end Functorial

namespace Functorials

/-- The functorial rule for a symbol, a term and a position. -/
def get? (F : Functorials) (inner name : String) (position : Nat) : Option Functorial :=
  F.find? (·.isFor inner name position)

/-- Registers a functorial rule in place of one for the same symbol, term and position. -/
def register (F : Functorials) (f : Functorial) : Functorials :=
  F.filter (fun g => !g.isFor f.inner f.name f.position) ++ [f]

/-- The names of the terms met on the way down a path, outermost first, each with the position
taken. There is no way past the last argument of a term. -/
def walk : Object → List Nat → Option (List (Option String × Nat))
  | _, [] => some []
  | t, i :: path => do
    let c ← t.children[i]?
    return (t.handle, i) :: (← walk c path)

/-- Lifts a rule with a symbol through terms, given innermost first. -/
def lift (F : Functorials) (rule : Object) (symbol : String) :
    List (Option String × Nat) → Option Object
  | [] => some rule
  | (name, i) :: steps => do
    let f ← F.get? symbol (← name) i
    F.lift (Expr.comp rule f.rule) f.outer steps

/-- The part of a chain that a path starts from: what has been reached so far. -/
def reached (c : Chain) : Object :=
  match c.reduced with
  | .node _ (.rule _) [_, r] => r
  | t => t

/-- A rule lifted to a path in the chain, if there is a chain, the rule is one, the path leads
somewhere, and every step has its functorial rule. -/
def lifted? (F : Functorials) (c? : Option Chain) (rule : Object) (path : List Nat) :
    Option Object := do
  let c ← c?
  match rule with
  | .node _ (.rule s) [_, _] => F.lift rule s (← walk (reached c) path).reverse
  | _ => none

/-- Reads positions up to the first one that is no number. -/
def readPath : List Object → Except Fault (Option (List Nat))
  | [] => return some []
  | t :: ts => do
    match ← t.integer? with
    | none => return none
    | some i => return (← readPath ts).map (i :: ·)

/-- Prepares the arguments of `Use`: a rule with positions after it is lifted. A rule that cannot
be lifted is used as it is. -/
def prepareUse (F : Functorials) (c? : Option Chain) :
    List Object → Except Fault (List Object)
  | [] => throw .noRule
  | [rule] => return [rule]
  | rule :: positions => do
    match ← readPath positions with
    | none => return [rule]
    | some path => return [(F.lifted? c? rule path).getD rule]

/-- The name of a constant. -/
def constantName? : Object → Option String
  | .node _ (.term name) [] => some name
  | _ => none

/-- Carries out `Functorial inner, name, position, outer, rule`. -/
def handleFunctorial (F : Functorials) (inner name position outer rule : Object) :
    Except Fault (Answer × Option Functorials) := do
  let some s := constantName? inner
    | return (.failed (.about inner "inner_rew must be a simple term (symbol)"), none)
  let some f := constantName? name
    | return (.failed (.about name "term_symbol must be a simple term (symbol)"), none)
  let some s' := constantName? outer
    | return (.failed (.about outer "outer_rew must be a simple term (symbol)"), none)
  let some i ← position.integer?
    | return (.failed (.about position "position must be a number"), none)
  match rule with
  | .node _ (.rule _) [_, _] =>
    return (.done (.about rule
        ("Functorial registered for " ++ f ++ " at position " ++ Text.decimal i)),
      some (F.register ⟨s, f, i, s', rule⟩))
  | _ => return (.failed (.about rule "Functorial rule must be a rewriting"), none)

end Functorials

end RuleProver
