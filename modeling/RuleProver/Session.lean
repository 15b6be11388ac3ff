import RuleProver.Alias
import RuleProver.Directive
import RuleProver.Functorial
import RuleProver.Goal.Step
import RuleProver.History

/-!
# Sessions

A session carries out directives. Its state has five components, each with a history of its own:
the aliases, the chain of a forward proof, the functorial rules, the numerals (which prepare and
present objects but remember nothing) and the goals of a backward proof.

A directive passes through the components in order, and each may prepare its arguments. Then the
component that the directive belongs to carries it out. On the way back each component may change
how the results are presented.

A component can be placed more than once in the order. There is only one chain, but every other
further place is a *spare* with a history of its own, which prepares and presents like the
component and carries out no directive.
-/

namespace RuleProver

/-- The components of a session. -/
inductive Component where
  | alias
  | chain
  | functorial
  | numeral
  | goal
deriving DecidableEq

/-- The directives that a session can carry out. -/
inductive Verb where
  | define
  | start
  | use
  | clear
  | verify
  | reduce
  | functorial
  | goal
  | assume
  | leadBack
  | done
  | check
  | posit
deriving DecidableEq

namespace Verb

/-- The name of a directive. -/
def name : Verb → String
  | .define => "Define"
  | .start => "Start"
  | .use => "Use"
  | .clear => "Clear"
  | .verify => "Verify"
  | .reduce => "Reduce"
  | .functorial => "Functorial"
  | .goal => "Goal"
  | .assume => "Assume"
  | .leadBack => "By"
  | .done => "Done"
  | .check => "Check"
  | .posit => "Axiom"

/-- All directives. -/
def all : List Verb :=
  [.define, .start, .use, .clear, .verify, .reduce, .functorial, .goal, .assume, .leadBack,
    .done, .check, .posit]

/-- The directive with a name. -/
def ofName? (s : String) : Option Verb := all.find? (·.name = s)

/-- The component that carries a directive out. -/
def component : Verb → Component
  | .define => .alias
  | .start | .use | .clear | .verify | .reduce => .chain
  | .functorial => .functorial
  | .goal | .assume | .leadBack | .done | .check | .posit => .goal

end Verb

/-- A further component of a kind that the session has already. -/
inductive Spare where
  | aliases (history : History Aliases)
  | functorials (history : History Functorials)
  | numerals (history : History Unit)
  | goals (history : History GoalState)

namespace Spare

/-- A new spare. There is none for the chain. -/
def ofComponent? : Component → Option Spare
  | .alias => some (.aliases (.ofState []))
  | .chain => none
  | .functorial => some (.functorials (.ofState []))
  | .numeral => some (.numerals (.ofState ()))
  | .goal => some (.goals (.ofState GoalState.initial))

/-- Changes the history of a spare. -/
def onHistory (f : {σ : Type} → History σ → History σ) : Spare → Spare
  | .aliases h => .aliases (f h)
  | .functorials h => .functorials (f h)
  | .numerals h => .numerals (f h)
  | .goals h => .goals (f h)

/-- Reads something off the history of a spare. -/
def ofHistory {β : Type} (f : {σ : Type} → History σ → β) : Spare → β
  | .aliases h => f h
  | .functorials h => f h
  | .numerals h => f h
  | .goals h => f h

end Spare

/-- A place in the order of a session: that of a component, or that of the spare with a number. -/
inductive Station where
  | own (component : Component)
  | spare (number : Nat)
deriving DecidableEq

/-- The state of a session. -/
structure Session where
  /-- The components that take part, in the order in which they prepare arguments. -/
  order : List Station
  /-- The components beyond the first of each kind. -/
  spares : List Spare
  /-- Whether an assumed premise becomes the start of a chain. -/
  chainsPremises : Bool
  aliases : History Aliases
  chain : History (Option Chain)
  functorials : History Functorials
  numerals : History Unit
  goals : History GoalState
  /-- The directives that have been carried out, the latest last. -/
  handled : List Verb
  /-- Names for moments, each with the number of directives handled before. -/
  marks : List (String × Nat)

namespace Session

variable [HoleOrder]

/-- Places components in order. The first of a kind is the session's own, as is every chain. -/
def place : List Component → List Station × List Spare :=
  List.foldl (fun (order, spares) c =>
    if order.contains (.own c) then
      match Spare.ofComponent? c with
      | some spare => (order ++ [.spare spares.length], spares ++ [spare])
      | none => (order ++ [.own c], spares)
    else (order ++ [.own c], spares)) ([], [])

/-- A new session with components in an order. -/
def ofComponents (components : List Component) (chainsPremises : Bool) : Session where
  order := (place components).1
  spares := (place components).2
  chainsPremises := chainsPremises
  aliases := .ofState []
  chain := .ofState none
  functorials := .ofState []
  numerals := .ofState ()
  goals := .ofState GoalState.initial
  handled := []
  marks := []

/-- The order of the components in a session. Numerals come after the components that need the
decimal notation. -/
def standardOrder : List Component := [.alias, .chain, .functorial, .numeral, .goal]

/-- A new session. -/
def initial : Session := ofComponents standardOrder false

/-! ## Histories -/

/-- Changes the history of a component. -/
def onComponent (S : Session) (f : {σ : Type} → History σ → History σ) : Component → Session
  | .alias => { S with aliases := f S.aliases }
  | .chain => { S with chain := f S.chain }
  | .functorial => { S with functorials := f S.functorials }
  | .numeral => { S with numerals := f S.numerals }
  | .goal => { S with goals := f S.goals }

/-- Reads something off the history of a component. -/
def ofComponent {β : Type} (S : Session) (f : {σ : Type} → History σ → β) : Component → β
  | .alias => f S.aliases
  | .chain => f S.chain
  | .functorial => f S.functorials
  | .numeral => f S.numerals
  | .goal => f S.goals

/-- Changes the history at a place. -/
def onHistory (S : Session) (f : {σ : Type} → History σ → History σ) : Station → Session
  | .own c => S.onComponent f c
  | .spare i => { S with spares := S.spares.modify i (Spare.onHistory f) }

/-- Reads something off the history at a place. -/
def ofHistory {β : Type} [Inhabited β] (S : Session) (f : {σ : Type} → History σ → β) :
    Station → β
  | .own c => S.ofComponent f c
  | .spare i => (S.spares[i]?.map (Spare.ofHistory f)).getD default

/-- Takes back the directive handled last, by one step in the history of its component. -/
def undo (S : Session) : Option Verb × Session :=
  match S.handled.getLast? with
  | none => (none, S)
  | some v =>
    (some v, { S with handled := S.handled.dropLast }.onComponent (fun h => h.undo.2) v.component)

/-- Marks the current moment in the session and in the history of every component. -/
def mark (S : Session) (name : String) : Session :=
  S.order.foldl (fun S c => S.onHistory (·.mark name) c)
    { S with marks := S.marks.filter (·.1 ≠ name) ++ [(name, S.handled.length)] }

/-- Returns to a marked moment, if the session and every component know it. -/
def rollback (S : Session) (name : String) : Bool × Session :=
  match S.marks.lookup name with
  | none => (false, S)
  | some n =>
    if S.order.all (S.ofHistory (·.hasMark name)) then
      let S' := S.order.foldl (fun S c => S.onHistory (fun h => (h.rollback name).2) c)
        { S with handled := S.handled.take n }
      (true, { S' with marks := S'.marks.filter (·.2 ≤ n) })
    else (false, S)

/-! ## Preparing arguments -/

/-- The fault of a wrong number of arguments. -/
def wrongCount (operation : String) (least most got : Nat) : Fault :=
  if got < least then .tooFewArguments operation least got
  else .tooManyArguments operation most got

/-- What a component makes of the arguments of a directive, and whether it has a warning to add
to the results. -/
structure Prepared where
  args : List Object
  warned : Bool

/-- Gives a name to the last argument, when a name comes first in a directive that allows it. -/
def nameLeading (h : History Aliases) (directive : String) (args : List Object) :
    History Aliases × List Object :=
  if directive = "Axiom" ∨ directive = "Functorial" then
    match Aliases.leadingName? args with
    | some (name, t, args') => (h.push (h.current.define name t), args')
    | none => (h, args)
  else (h, args)

/-- Puts objects in place of names. The name that `Define` gives stays. -/
def expandNames (A : Aliases) (directive : String) : List Object → List Object
  | [] => []
  | arg :: args =>
    (if directive = "Define" then arg else A.expand arg) :: A.expandAll args

/-- Prepares the arguments of a directive by names. -/
def prepareNames (h : History Aliases) (directive : String) (args : List Object) :
    History Aliases × List Object :=
  let (h, args) := nameLeading h directive args
  (h, expandNames h.current directive args)

/-- Prepares the arguments of a directive by functorial rules. -/
def prepareRule (S : Session) (F : Functorials) (directive : String) (p : Prepared) :
    Except Fault Prepared :=
  if directive = "Use" then
    (F.prepareUse S.chain.current p.args).map ({ p with args := · })
  else .ok p

/-- Looks whether a rule is known for the goal in focus before it is used. -/
def prepareWarning (G : GoalState) (directive : String) (p : Prepared) : Except Fault Prepared :=
  if directive = "Use" then
    match p.args with
    | [rule] => (G.warns rule).map fun w => { p with warned := p.warned || w }
    | args => .error (wrongCount "use_forhook" 1 1 args.length)
  else .ok p

/-- Turns the numerals among the arguments into successors. -/
def prepareNumerals (p : Prepared) : Except Fault Prepared :=
  (Expr.toSuccessorsAll p.args).map ({ p with args := · })

/-- Prepares the arguments of a directive in a component. -/
def prepareOwn (S : Session) (directive : String) (p : Prepared) :
    Component → Session × Except Fault Prepared
  | .alias =>
    let (h, args) := prepareNames S.aliases directive p.args
    ({ S with aliases := h }, .ok { p with args })
  | .chain =>
    if directive = "Done" then
      if p.args.isEmpty then
        (S, .ok { p with args := (S.chain.current.map (·.unreduced)).toList })
      else (S, .error (wrongCount "done_forhook" 0 0 p.args.length))
    else (S, .ok p)
  | .functorial => (S, S.prepareRule S.functorials.current directive p)
  | .numeral => (S, prepareNumerals p)
  | .goal => (S, prepareWarning S.goals.current directive p)

/-- Prepares the arguments of a directive in the spare with number `i`. -/
def prepareSpare (S : Session) (directive : String) (p : Prepared) (i : Nat) :
    Spare → Session × Except Fault Prepared
  | .aliases h =>
    let (h, args) := prepareNames h directive p.args
    ({ S with spares := S.spares.set i (.aliases h) }, .ok { p with args })
  | .functorials h => (S, S.prepareRule h.current directive p)
  | .numerals _ => (S, prepareNumerals p)
  | .goals h => (S, prepareWarning h.current directive p)

/-- Prepares the arguments of a directive at one place. -/
def prepareIn (S : Session) (directive : String) (p : Prepared) :
    Station → Session × Except Fault Prepared
  | .own c => S.prepareOwn directive p c
  | .spare i =>
    match S.spares[i]? with
    | some spare => S.prepareSpare directive p i spare
    | none => (S, .ok p)

/-- Prepares the arguments of a directive at a list of places, one after the other. -/
def prepare (S : Session) (directive : String) (p : Prepared) :
    List Station → Session × Except Fault Prepared
  | [] => (S, .ok p)
  | c :: cs =>
    match S.prepareIn directive p c with
    | (S, .ok p) => S.prepare directive p cs
    | (S, .error f) => (S, .error f)

/-! ## Carrying out directives -/

/-- Moves the aliases on as a step says. -/
def moveAliases (S : Session) (step : Step Aliases) : Session × Except Fault Answer :=
  (match step.1 with
    | some A => { S with aliases := S.aliases.push A }
    | none => S, step.2)

/-- Moves the chain on as a step says. -/
def moveChain (S : Session) (step : Step (Option Chain)) : Session × Except Fault Answer :=
  (match step.1 with
    | some c => { S with chain := S.chain.push c }
    | none => S, step.2)

/-- Moves the functorial rules on as a step says. -/
def moveFunctorials (S : Session) (step : Step Functorials) : Session × Except Fault Answer :=
  (match step.1 with
    | some F => { S with functorials := S.functorials.push F }
    | none => S, step.2)

/-- Moves the goals on as a step says. -/
def moveGoals (S : Session) (step : Step GoalState) : Session × Except Fault Answer :=
  (match step.1 with
    | some G => { S with goals := S.goals.push G }
    | none => S, step.2)

/-- A step of the chain that leads to a chain, if it leads anywhere. -/
def chainStep (r : Except Fault (Answer × Option Chain)) : Step (Option Chain) :=
  .ofPair (r.map fun (a, c?) => (a, c?.map some))

/-- Carries out `Assume`, which may start a chain from the assumed premise. -/
def assume (S : Session) (arg? : Option Object) : Session × Except Fault Answer :=
  let (step, premise?) := S.goals.current.handleAssume arg?
  let (S, answer) := S.moveGoals step
  match premise?, S.chainsPremises with
  | some t, true =>
    match Chain.start t with
    | .ok (c, _) => ({ S with chain := S.chain.push (some c) }, answer)
    | .error f => (S, .error f)
  | _, _ => (S, answer)

/-- Carries out a directive with prepared arguments. -/
def perform (S : Session) : Verb → List Object → Session × Except Fault Answer
  | .define, [name, t] =>
    let (a, A?) := S.aliases.current.handleDefine name t
    S.moveAliases (A?, .ok a)
  | .define, args => (S, .error (wrongCount "define_handler" 2 2 args.length))
  | .start, [t] => S.moveChain (chainStep (Chain.handleStart t))
  | .start, args => (S, .error (wrongCount "handle_start" 1 1 args.length))
  | .use, [rule] => S.moveChain (chainStep (Chain.handleUse S.chain.current rule))
  | .use, args => (S, .error (wrongCount "handle_use" 1 1 args.length))
  | .clear, [] => S.moveChain (.move none (.done Chain.cleared))
  | .clear, args => (S, .error (wrongCount "handle_clear" 0 0 args.length))
  | .verify, [] => (S, Chain.handleVerify (S.chain.current.map (·.reduced)))
  | .verify, [t] => (S, Chain.handleVerify (some t))
  | .verify, args => (S, .error (wrongCount "handle_verify" 0 1 args.length))
  | .reduce, [t] => (S, Chain.handleReduce t)
  | .reduce, args => (S, .error (wrongCount "handle_reduce" 1 1 args.length))
  | .functorial, [inner, name, position, outer, rule] =>
    S.moveFunctorials (.ofPair
      (S.functorials.current.handleFunctorial inner name position outer rule))
  | .functorial, args => (S, .error (wrongCount "handle_functorial" 5 5 args.length))
  | .goal, [t] => S.moveGoals (S.goals.current.handleGoal t)
  | .goal, args => (S, .error (wrongCount "handle_goal" 1 1 args.length))
  | .assume, [] => S.assume none
  | .assume, [t] => S.assume (some t)
  | .assume, args => (S, .error (wrongCount "handle_assume" 0 1 args.length))
  | .leadBack, [rule] => S.moveGoals (S.goals.current.handleBy rule none)
  | .leadBack, [rule, force] => S.moveGoals (S.goals.current.handleBy rule (some force))
  | .leadBack, args => (S, .error (wrongCount "handle_by" 1 2 args.length))
  | .done, [] => S.moveGoals (S.goals.current.handleDone none)
  | .done, [t] => S.moveGoals (S.goals.current.handleDone (some t))
  | .done, args => (S, .error (wrongCount "handle_done" 0 1 args.length))
  | .check, [] => (S, .ok S.goals.current.handleCheck)
  | .check, args => (S, .error (wrongCount "handle_check" 0 0 args.length))
  | .posit, args => S.moveGoals (S.goals.current.handleAxiom args)

/-! ## Presenting results -/

/-- How a component changes a result. -/
def presentOwn (warned : Bool) (r : Result) : Component → Result
  | .alias => r.map Aliases.restore
  | .numeral => r.map Expr.toDecimals
  | .goal => if warned then GoalState.warn r else r
  | _ => r

/-- How a spare changes a result. Its goals are never stated, so it has no warning to add. -/
def presentSpare (r : Result) : Spare → Result
  | .aliases _ => r.map Aliases.restore
  | .numerals _ => r.map Expr.toDecimals
  | _ => r

/-- How the component at a place changes a result. -/
def presentIn (S : Session) (warned : Bool) (r : Result) : Station → Result
  | .own c => presentOwn warned r c
  | .spare i => (S.spares[i]?.map (presentSpare r)).getD r

/-- A result after all components have changed it, the last one first. -/
def present (S : Session) (warned : Bool) (r : Result) : Result :=
  S.order.reverse.foldl (S.presentIn warned) r

/-! ## Processing -/

/-- The answer to a directive that no component carries out. -/
def unknown (directive : String) : Answer :=
  .failed (.error ("No handler registered for directive: " ++ directive))

/-- Carries out a directive from its preparation to the presentation of its results. A directive
that breaks off is not counted as handled, but what its preparation changed stays changed. -/
def process (S : Session) (d : Directive) : Session × Except Fault Answer :=
  match S.prepare d.name ⟨d.args, false⟩ S.order with
  | (S, .error f) => (S, .error f)
  | (S, .ok p) =>
    match (Verb.ofName? d.name).filter fun v => S.order.contains (.own v.component) with
    | none => (S, .ok (unknown d.name))
    | some v =>
      match S.perform v p.args with
      | (S, .error f) => (S, .error f)
      | (S, .ok a) =>
        ({ S with handled := S.handled ++ [v] },
          .ok { a with results := a.results.map (S.present p.warned) })

end Session

end RuleProver
