import RuleProver.Result

/-!
# Chains

A chain builds an object forward: it starts from an object and applies rules to it one after the
other. It is kept in two forms. The reduced form is shown and grows by composing rules; the
unreduced form keeps every rule that was used, so that the whole can be checked later.
-/

namespace RuleProver

/-- An object under construction. -/
structure Chain where
  /-- What has been built, reduced. -/
  reduced : Object
  /-- How it has been built. -/
  unreduced : Object

namespace Chain

variable [HoleOrder]

/-- Starts a chain from an object. -/
def start (t : Object) : Except Fault (Chain × Result) := do
  let u ← t.reduce
  return (⟨u, t⟩, .about u "Started building from: []")

/-- What the next rule is composed with: a chain that is not yet a rule is taken as the rule from
itself to itself. -/
def asRule (symbol : String) (t : Object) : Object :=
  match t with
  | .node _ (.rule _) [_, _] => t
  | _ => t.identity symbol

/-- The symbol of a chain that is a rule already. -/
def symbol? (c : Chain) : Option String :=
  match c.reduced with
  | .node _ (.rule s) [_, _] => some s
  | _ => none

/-- The unreduced form of a chain after one more rule. -/
def extend (c : Chain) (symbol : String) (rule : Object) : Object :=
  match c.symbol? with
  | some _ => Expr.comp c.unreduced rule
  | none => Expr.comp (c.unreduced.identity symbol) rule

/-- Applies a rule to a chain. Without success the result is about the rule. -/
def apply (c : Chain) (rule : Object) : Except Fault (Except Result (Chain × Result)) := do
  let rule' ← rule.reduce
  match rule' with
  | .node _ (.rule s) [_, _] =>
    match c.symbol? with
    | some s' =>
      if s' ≠ s then
        return .error (.about rule'
          ("Symbol mismatch: working term uses " ++ s' ++ ", rule uses " ++ s))
    | none => pure ()
    match (asRule s c.reduced).composeRules rule' with
    | none => return .error (.about rule' ("Cannot apply [] to " ++ Object.text c.reduced))
    | some composed =>
      let composed ← composed.reduce
      let shown := composed.right?.getD composed
      return .ok (⟨composed, c.extend s rule⟩, .about shown "Applied rule, new term: []")
  | _ => return .error (.about rule "Use requires a rewriting rule")

/-- Carries out `Start object`. -/
def handleStart (t : Object) : Except Fault (Answer × Option Chain) := do
  let (c, r) ← start t
  return (.done r, some c)

/-- Carries out `Use rule` on the chain there is. The new chain is returned on success. -/
def handleUse (c? : Option Chain) (rule : Object) : Except Fault (Answer × Option Chain) := do
  match c? with
  | none => return (.failed (.about rule "No working term. Use 'Start' first."), none)
  | some c =>
    match ← c.apply rule with
    | .error r => return (.failed r, none)
    | .ok (c', r) => return (.done r, some c')

/-- The answer to `Clear`. -/
def cleared : Result := .notice "Cleared" "Working term cleared"

/-- Carries out `Verify` on an object. -/
def handleVerify (t? : Option Object) : Except Fault Answer := do
  match t? with
  | none => return .failed (.error "No term to check")
  | some t =>
    let (v, _) ← t.checkIn none []
    return ⟨v.holds, [.about t v.message]⟩

/-- Carries out `Reduce object`. -/
def handleReduce (t : Object) : Except Fault Answer := do
  return .done ⟨← t.reduce, none⟩

end Chain

end RuleProver
