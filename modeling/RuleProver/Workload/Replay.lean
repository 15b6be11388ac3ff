import RuleProver.Console
import RuleProver.Value

/-!
# Replayed sessions

Workloads that type a fixed list of lines at a silent console, over and over. The console keeps its
state between the rounds, so later rounds meet the definitions, goals and chains of earlier ones.
-/

namespace RuleProver.Workload

/-- What came of a line, as a value: success and message, or nothing if the line broke off. -/
def responseValue (r : Console.Response) : Value :=
  match r.outcome with
  | some (success, message) => .tuple [.bool success, .text message]
  | none => .null

/-- Types lines one after the other, and collects what comes of each. -/
def typeLines (files : Files) : Console → List String → Console × List Value
  | C, [] => (C, [])
  | C, line :: lines =>
    let (C, r) := C.process files line none
    let (C, vs) := typeLines files C lines
    (C, responseValue r :: vs)

/-- A silent console. -/
def silentConsole : Console := (Console.start (Prover.initial "/") true).1

/-- A number of copies of a list, one after the other. -/
def rounds {α : Type} (n : Nat) (xs : List α) : List α := (List.replicate n xs).flatten

/-- Replays a list of lines for a number of rounds, after lines that prepare for it. -/
def replay (preparation lines : List String) (n : Nat) : Value :=
  let C := (typeLines [] silentConsole preparation).1
  .list (typeLines [] C (rounds n lines)).2

/-- The first elements of a list that is repeated without end. -/
def cycle {α : Type} [Inhabited α] (n : Nat) (xs : List α) : List α :=
  (List.range n).map fun i => xs.getD (i % xs.length) default

/-! ## Proofs -/

/-- Backward proofs with one and two premises, forced steps, wrong arguments and named axioms. -/
def proofLines : List String :=
  ["Goal (A => B) => ((B => C) => (A => C))", "Assume", "Assume", "Assume", "By (B => C)",
    "By (A => B)", "Done", "Check",
    "Goal (A => B) => ((B => C) => (A => C))", "Assume", "Assume", "Assume", "By (X => C)",
    "By (X => C), force", "By (B => X), force", "By (A => B)", "Done", "Done",
    "Goal (A => B => Z) => Z", "Assume", "Check", "By A => B => Z",
    "Define def_and, #A => #B => and(#A, #B)", "Goal def_and => X => Y => and(X, Y)", "Assume",
    "Assume", "Assume", "Done", "By def_and", "Done", "Done",
    "Goal A", "By X => Y => Z => A",
    "Goal A => B", "By X => Y => A => B",
    "Goal True => A", "Assume bad", "Assume", "Done", "Axiom A", "Done",
    "Axiom <=>, Equiv", "Axiom ->, pi", "Axiom ->, zero", "Axiom ->, a, b",
    "Define inc, #k -> S(#k)", "Axiom ->, inc", "Define def_times, #a -> #b -> #a * #b",
    "Axiom ->, def_times", "Goal dot -> 2 * pi", "Assume", "By def_times", "Done", "Start zero",
    "Use inc", "Use inc", "Done", "Done"]

/-- Backward proofs. -/
def proofs : Nat → Value := replay [] proofLines

/-- Chains, on their own and for a goal, then reductions and checks. -/
def chainLines : List String :=
  ["Define ax1, A => B", "Define ax2, B => C", "Start A", "Use ax1", "Use ax2", "Verify",
    "Clear", "Verify", "Use ax1", "Start A", "Use A", "Define ax3, D => E", "Use ax3",
    "Start foo", "Use bar => baz", "Clear",
    "Define rule1, X => Y", "Define rule2, Y => Z", "Goal rule1 => rule2 => (X => Z)", "Assume",
    "Assume", "Start X", "Use rule1", "Use rule2", "Done",
    "Goal (X => Y) => (X => Z)", "Assume", "Start X", "Use X => Y", "Use B => C",
    "Start X", "Use X => Y", "Use Y -> Z",
    "Reduce (A -> B) | (B -> C)", "Reduce g(#x) | (g(#y) -> h(#y))", "Reduce 5 | (#x -> #x)",
    "Reduce f(3, S(S(zero)))", "Verify (A -> B) => ((B -> C) => ((A -> B) | (B -> C)))",
    "Verify not_buildable", "Verify (P | Q) => (P | Q)"]

/-- Chains of rules. -/
def chains : Nat → Value := replay [] chainLines

/-- Names and how they are shown, and the signs that terms are displayed with. -/
def nameLines : List String :=
  ["Define id, #x -> #x", "Define b, a", "Define c, b", "Define f(x), y", "Verify a -> c",
    "Verify id", "Verify #A => B", "Define foo, x", "Define foo, y",
    "Axiom named_ax, A => B", "Reduce named_ax",
    "Functorial funct_name, =, plus, 0, =, (#x = #y) => (#x + #c = #y + #c)", "Reduce funct_name",
    "Define arith, (u + v) * w - k / m", "Reduce arith", "Reduce and(p, q)", "Reduce or(p, q)",
    "Reduce not(p)", "Reduce not(and(p, q))", "Reduce naturals", "Reduce integers", "Reduce reals",
    "Reduce naturals(x)", "Reduce integers(x)", "Reduce reals(x)", "Reduce not(x, y)"]

/-- Names and displays. -/
def names : Nat → Value := replay [] nameLines

/-- The commands of the console among directives. -/
def commandLines : List String :=
  [":undo", ":help", "Define rule1, a => b", "Define rule2, b => c", "Reduce rule1 | rule2",
    ":undo", ":undo", "Reduce rule1 | rule2", ":undo", ":checkpoint step1",
    "Define rule3, c => d", "Define rule4, d => e", "Reduce rule3 | rule4", ":rollback step1",
    "Reduce rule3 | rule4", ":rollback nonexistent", ":checkpoint", ":rollback", ":unknown",
    ":exit", "Define ruleA, x => y", ":checkpoint pointA", "Define ruleB, y => z",
    ":checkpoint pointB", "Define ruleC, z => w", ":rollback pointB", ":rollback pointA",
    "NotADirective a", "Using"]

/-- Commands of the console. -/
def commands : Nat → Value := replay [] commandLines

/-! ## Arithmetic -/

/-- The rules of arithmetic that a proof by induction needs. -/
def arithmeticLines : List String :=
  ["Define induction, and((0 | #P), ((#n | #P) => (S(#n) | #P))) => forall(N, #P)",
    "Axiom induction",
    "Axiom sum_base, sum(0, 0, #f) = 0",
    "Axiom sum_ind, sum(0, S(#k), #f) = sum(0, #k, #f) + (S(#k)|#f)",
    "Axiom mult_eq_left, (#a = #b) => #a * #c = #b * #c",
    "Axiom mult_eq_right, (#a = #b) => #c * #a = #c * #b",
    "Functorial =, mult, 0, =, mult_eq_left", "Functorial =, mult, 1, =, mult_eq_right",
    "Axiom plus_eq_left, (#a = #b) => #a + #c = #b + #c",
    "Axiom plus_eq_right, (#a = #b) => #c + #a = #c + #b",
    "Functorial =, plus, 0, =, plus_eq_left", "Functorial =, plus, 1, =, plus_eq_right",
    "Axiom distributivity, #k*(#a + #b) = #k * #a + #k * #b",
    "Axiom factorization, #k*#a + #k*#b = #k * (#a + #b)",
    "Axiom eq_comm, (#a = #b) => (#b = #a)",
    "Axiom add_base, #a + 0 = #a", "Axiom add_ind, #a + S(#b) = S(#a) + #b",
    "Axiom times_zero, #a * 0 = 0", "Axiom zero_times, 0 = #a * 0",
    "Axiom mult_comm, #a * #b = #b * #a", "Axiom add_comm, #a + #b = #b + #a",
    "Axiom equal_trans, (#a = #c) => (#b = #c) => (#a = #b)"]

/-- The sum of the first numbers, by induction. -/
def summationLines : List String :=
  ["Goal forall(N, #n -> (2 * sum(0, #n, #k -> #k) = #n*(#n + 1)))", "By induction",
    "By def_and", "Assume",
    "Start 2 * sum(0, S(#n), #k -> #k)", "Use sum_ind, 1", "Use distributivity",
    "Use 2 * sum(0, #n, #k -> #k) = #n*(#n + 1), 0", "Use add_ind, 0, 1", "Use add_base, 0, 1",
    "Use mult_comm, 0", "Use mult_comm, 1", "Use factorization", "Use add_ind, 1", "Done",
    "By ((#a = 0) => (#a = 0)) | equal_trans",
    "Start 0 * (0 + 1)", "Use mult_comm", "Use times_zero", "Done",
    "Start 2 * sum(0, 0, #k -> #k)", "Use sum_base, 1", "Use times_zero", "Done"]

/-- A proof by induction. -/
def summation : Nat → Value := replay arithmeticLines summationLines

/-- Rules applied inside terms, at positions that exist and that do not. -/
def positionLines : List String :=
  ["Functorial =, plus, 0, =, (#x = #y) => (#x + #c = #y + #c)",
    "Functorial =, plus, 1, =, (#x = #y) => (#c + #x = #c + #y)",
    "Functorial =, minus, 0, =, (#x = #y) => (#x - #c = #y - #c)",
    "Functorial =, minus, 1, =, (#x = #y) => (#c - #x = #c - #y)",
    "Functorial <=, minus, 0, <=, (#x <= #y) => (#x - #c <= #y - #c)",
    "Functorial <=, minus, 1, >=, (#x <= #y) => (#c - #x >= #c - #y)",
    "Use a = 2, 0", "Start (a + b) - c", "Use a = 2, 0, 0", "Start (a + b) - c",
    "Use b = 3, 0, 1", "Start ((a + b) - c) + d", "Use a = 1, 0, 0, 0", "Start a + b",
    "Use a = 2, 2", "Start a + b", "Use a = 2, 0, 0",
    "Functorial =, mult, 0, =, (#x = #y) => (#x * #c = #y * #c)", "Start a * b", "Use a = 2, 0",
    "Start a / b", "Use a = 2, 0", "Start a + (b - c)", "Use b = 7, 1, 0",
    "Start (((a + b) - c) + d) - e", "Use a = 0, 0, 0, 0, 0", "Start a - b", "Use (a <= 10), 0",
    "Start (a + b) - c", "Use a = 1, 0, 0", "Use b = 2, 0, 1", "Use c = 3, 1", "Clear"]

/-- Rules applied inside terms. -/
def positions : Nat → Value := replay [] positionLines

/-! ## The prompt -/

/-- Lines typed at the prompt. The prompt takes no notice of an empty line. -/
def promptLines : List String :=
  ["", "Define r, a => b", "Reduce a | r", ":help", ":undo", ":undo", "Reduce #", "Reduce ("]

/-- A conversation at the prompt of a number of lines, up to leaving it: the length of all that is
printed, a message with references to parts of an object, what is said of a wrong reference, and the
colour of success. -/
def conversation (n : Nat) : Value :=
  let (C, printed) := Console.start (Prover.initial "/") false
  let typed := (if n = 0 then [""] else cycle n promptLines) ++ [":exit"]
  let said := printed ++ Console.helpPage ++ C.converse [] (typed.map .line)
  let t : Object := Expr.term "f" [Expr.const "a", Expr.term "b" [Expr.const "c"]]
  let wrong := match Message.interpolate t "[7]" with
    | .ok s => s
    | .error f => String.ofList (f.message.toList.take 5)
  let right := match Message.interpolate t "obj=[] child=[1.0] root=[0]" with
    | .ok s => s
    | .error f => f.message
  .tuple [.int said.length, .text right, .text wrong, .text Colour.green]

end RuleProver.Workload
