import RuleProver.Goal.Tree
import RuleProver.Result

/-!
# Proof steps

The directives of a backward proof. `Goal` states what is to be built, `Assume` moves the left
side of a goal that is a rule into the context, `By` leads a goal back to the premises of a known
rule, `Done` closes a goal, `Check` lists the open goals and `Axiom` adds to what is known.

A step may change the state and still break off afterwards, so it returns the new state, if there
is one, next to its answer.
-/

namespace RuleProver

/-- The outcome of a step: the state that it moves on to, if it does, and its answer. -/
abbrev Step (σ : Type) := Option σ × Except Fault Answer

namespace Step

variable {σ : Type}

/-- Breaks off before the state has changed. -/
def fault (f : Fault) : Step σ := (none, .error f)

/-- Answers and leaves the state as it is. -/
def stay (a : Answer) : Step σ := (none, .ok a)

/-- Answers and moves on to a new state. -/
def move (s : σ) (a : Answer) : Step σ := (some s, .ok a)

/-- A step that is found by a computation that may break off. -/
def ofExcept : Except Fault (Step σ) → Step σ
  | .ok s => s
  | .error f => fault f

/-- A step from an answer and the state to move on to. -/
def ofPair : Except Fault (Answer × Option σ) → Step σ
  | .ok (a, s?) => (s?, .ok a)
  | .error f => fault f

end Step

/-- The lemma `(X s (Y s Z)) s ((Z s W) s (X s (Y s W)))` in the form of its proof. It composes a
rule with two premises with a rule that acts on its conclusion. -/
def currifier (s : String) : Object :=
  let x : Object := Expr.var "X"
  let y : Object := Expr.var "Y"
  let z : Object := Expr.var "Z"
  let w : Object := Expr.var "W"
  let inner := Expr.rule x s (Expr.rule y s z)
  let step := Expr.rule z s w
  let built := Expr.comp (Expr.comp y (Expr.comp x inner)) step
  Expr.rule inner s (Expr.rule step s (Expr.rule x s (Expr.rule y s built)))

namespace GoalState

variable [HoleOrder]

/-- The message with every goal that comes into focus. -/
def newGoal (g : Object) : Result := .about g "New goal: []"

/-- The message with a finished proof. -/
def completed (t : Object) : Result := .about t "Goal completed: []"

/-- Carries out `Goal statement`. -/
def handleGoal (S : GoalState) (t : Object) : Step GoalState := .ofExcept do
  let (S', g) ← S.setGoal t (some "=>")
  return .move S' (.done (newGoal g))

/-- Carries out `Assume` or `Assume premise`. The premise that was assumed is returned too. -/
def handleAssume (S : GoalState) (arg? : Option Object) : Step GoalState × Option Object :=
  match S.goal? with
  | none => (.fault (.noGoal .term), none)
  | some g =>
    match g.goalTerm? with
    | some (.node _ (.rule s) [l, r]) =>
      let step : Except Fault (Step GoalState × Option Object) := do
        if let some arg := arg? then
          if !(← arg.reduce).same (← l.reduce) then
            return (.stay (.failed (.about arg
              ("Argument [] does not match assumed premise " ++ Object.text l))), none)
        let g' ← Object.goal (some s) r
        let S' ← S.update (Expr.rule l s g')
        return (.move S' (.done (newGoal g')), some l)
      match step with
      | .ok r => r
      | .error f => (.fault f, none)
    | _ => (.stay (.failed (.about g "Goal is not a rewriting")), none)

/-- Peels premises off a rule until what is left unifies with a target. -/
def peel (target : Object) : Object → Option (List Object × Assignment Note)
  | .node m (.rule s) [l, r] =>
    match target.unifier? (.node m (.rule s) [l, r]) with
    | some σ => some ([], σ)
    | none => (peel target r).map fun (premises, σ) => (l :: premises, σ)
  | t => (target.unifier? t).map fun σ => ([], σ)

/-- The premises under which a rule leads to the left side of `term`, or why it does not. -/
def premisesFor (term left rule : Object) :
    Except Fault (Except Result (List Object × Assignment Note)) := do
  match peel left (← rule.reduce) with
  | none =>
    return .error (.about rule
      ("Can't apply " ++ Object.text rule ++ " to obtain " ++ Object.text term))
  | some (premises, σ) =>
    if premises.length > 2 then
      return .error (.about rule
        ("Rules with more than 2 premises are not yet supported. Found "
          ++ Text.decimal premises.length ++ " premises."))
    else return .ok (premises, σ)

/-- Composes goals for the premises, in order, around what is built. -/
def premiseGoals (symbol : Option String) (σ : Assignment Note) :
    List Object → Object → Except Fault Object
  | [], built => return built
  | p :: ps, built => do
    let g ← Object.goal symbol (p.fill σ)
    premiseGoals symbol σ ps (Expr.comp g built)

/-- The tree that leads a goal back to the premises of a rule. Two premises need the currifier to
be composed with `term`. -/
def backwardTree (term : Object) (symbol : Option String) (rule : Object)
    (premises : List Object) (σ : Assignment Note) : Except Fault Object :=
  if premises.length = 2 then
    premiseGoals symbol σ premises
      (Expr.comp term (Expr.comp rule (currifier (symbolText symbol))))
  else premiseGoals symbol σ premises (Expr.comp rule term)

/-- Whether an extra argument asks for the use of an unknown rule. -/
def isForce (arg? : Option Object) : Bool := (arg?.bind Expr.handle) = some "force"

/-- How a rule leads to a goal: to the goal taken as the rule from itself to itself, or, for a
goal that is a rule, to its left side. -/
def premisesForGoal (symbol : Option String) (goalTerm rule : Object) :
    Except Fault (Except Result (Object × List Object × Assignment Note)) := do
  let around := goalTerm.identity (symbolText symbol)
  match ← premisesFor around goalTerm rule with
  | .ok r => return .ok (around, r)
  | .error e =>
    match goalTerm with
    | .node _ (.rule _) [l, _] =>
      match ← premisesFor goalTerm l rule with
      | .ok r => return .ok (goalTerm, r)
      | .error e => return .error e
    | _ => return .error e

/-- Carries out `By rule` or `By rule, force`. -/
def handleBy (S : GoalState) (rule : Object) (force? : Option Object) : Step GoalState :=
  match S.goal? with
  | none => .fault (.noGoal .statement)
  | some g => .ofExcept do
    let symbol := g.goalSymbol
    match ← premisesForGoal symbol (g.goalTerm?.getD g) rule with
    | .error e => return .stay (.failed e)
    | .ok (term, premises, σ) =>
      let (v, _) ← rule.checkIn symbol S.context
      let known := symbol.isSome && v.holds
      if !known && !isForce force? then
        return .stay (.failed (.about rule
          "[] is not a known rewriting. Use 'force' to use it anyway."))
      let used ← if known then pure rule else Object.goal symbol rule
      let S' ← S.update (← backwardTree term symbol used premises σ)
      match S'.goal? with
      | some g' => return .move S' (.done (newGoal g'))
      | none => return (some S', .error (.noGoal .statement))

/-- Closes the goal in focus with an object, and shows the whole tree reduced. -/
def close (S : GoalState) (t : Object) : Step GoalState := .ofExcept do
  let S' ← S.update t
  match (S'.tree.getD t).reduce with
  | .ok u => return .move S' (.done (completed u))
  | .error f => return (some S', .error f)

/-- Closes a goal with a candidate. The candidate must be buildable, and reduce to the goal or to
a rule that leads to the goal from something buildable. -/
def closeWith (S : GoalState) (g candidate : Object) : Step GoalState := .ofExcept do
  let symbol := g.goalSymbol
  let goalTerm := g.goalTerm?.getD g
  let (v, Γ) ← candidate.checkIn symbol S.context
  let reduced ← candidate.reduce
  if v.holds && reduced.same goalTerm then
    return S.close candidate
  if v.holds then
    if let .node _ (.rule _) [l, r] := reduced then
      let (w, _) ← l.checkIn symbol Γ
      let r' ← r.reduce
      if w.holds && r'.same goalTerm then
        return S.close (Expr.comp l candidate)
  return .stay (.failed (.about g "Candidate does not complete the goal: []"))

/-- Carries out `Done`, with a candidate or without one. Without one the goal is closed when its
statement is known as it stands. -/
def handleDone (S : GoalState) (candidate? : Option Object) : Step GoalState :=
  match S.goal? with
  | none => .stay (.failed (.error "No active goals"))
  | some g =>
    match candidate? with
    | some candidate => S.closeWith g candidate
    | none =>
      let known := g.goalSymbol.isSome &&
        S.context.lists g.goalSymbol (g.goalStatement?.getD g)
      if known then S.close (g.goalTerm?.getD g)
      else .stay (.failed (.about g "Goal not completed: []"))

/-- Carries out `Check`: the number of open goals, then each of them with its number. -/
def handleCheck (S : GoalState) : Answer :=
  let listed := S.goals.zipIdx.map fun (g, i) => Result.about g (Text.decimal i ++ ": []")
  ⟨true, .notice "Status" (Text.decimal S.goals.length ++ " goals:") :: listed⟩

/-- Carries out `Axiom term`, which holds for `=>`, or `Axiom symbol, term`. -/
def handleAxiom (S : GoalState) (args : List Object) : Step GoalState :=
  let added (symbol : Option String) (t : Object) : Step GoalState :=
    .move (S.addAxiom symbol t)
      (.done (.about t ("Added [] to context for " ++ symbolText symbol)))
  match args with
  | [t] => added (some "=>") t
  | [s, t] => added s.handle t
  | _ => .stay (.failed (.error
      ("Axiom expects 1 or 2 arguments, got " ++ Text.decimal args.length)))

/-- Whether the use of a rule deserves a warning: a goal is open, and the rule is not buildable
for it. -/
def warns (S : GoalState) (rule : Object) : Except Fault Bool := do
  match S.goal? with
  | none => return false
  | some g =>
    let (v, _) ← rule.checkIn g.goalSymbol S.context
    return !v.holds

/-- The warning after the message of a result. -/
def warn (r : Result) : Result :=
  let warning := "(Warning: the rule you used is not buildable)"
  let old := r.message.getD ""
  { r with message := some (if old = "" then warning else old ++ " " ++ warning) }

end GoalState

end RuleProver
