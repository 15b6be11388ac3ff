import RuleProver.Value

/-!
# Benchmarks

A benchmark is a named function that sets up some work, with or without parameters, and gives a run
of that work. A run returns a value, fails, or does not end in time. A suite holds the benchmarks of
a module in the order of their names.
-/

namespace RuleProver

/-- A failure: its kind, and the values it was raised with. -/
structure Failure where
  kind : String
  args : List Value

namespace Failure

/-- The text of a failure without its kind. A missing key is shown as a literal. -/
def reason (f : Failure) : String :=
  match f.args with
  | [] => ""
  | [v] => if f.kind = "KeyError" then v.literal else v.shown
  | vs => (Value.tuple vs).literal

/-- A failure as one line of text. -/
def message (f : Failure) : String := f.kind ++ ": " ++ f.reason

end Failure

/-- Named arguments, in order. -/
abbrev Arguments := List (String × Value)

namespace Arguments

/-- What a set of arguments is listed under. -/
def label (args : Arguments) : String :=
  if args.isEmpty then "-" else Text.join "," (args.map fun (k, v) => k ++ "=" ++ v.shown)

/-- The arguments as a list of pairs in the order of their names. -/
def toValue (args : Arguments) : Value :=
  .list ((args.mergeSort fun a b => !decide (b.1 < a.1)).map fun (k, v) => .tuple [.text k, v])

end Arguments

/-- What a run returns. -/
inductive Returns where
  /-- The value of the benchmark. -/
  | value
  /-- The first argument, if there is any. -/
  | parameter
  /-- The value of the benchmark together with all arguments. -/
  | mixed
deriving DecidableEq

/-- How a run ends. -/
inductive Outcome where
  | returned (v : Value)
  | failed (f : Failure)
  | timedOut

/-- A benchmark. -/
structure Benchmark where
  name : String
  value : Value
  /-- Whether the function returns its value at once, in place of a run. -/
  direct : Bool
  setUpFailure : Option Failure
  runFailure : Option Failure
  timesOut : Bool
  parameters : List Arguments
  returns : Returns

namespace Benchmark

/-- What a run returns that neither fails nor stops. -/
def returned (b : Benchmark) (args : Arguments) : Value :=
  match b.returns, args with
  | .value, _ => b.value
  | .parameter, (_, v) :: _ => v
  | .parameter, [] => b.value
  | .mixed, _ => .list [b.value, args.toValue]

/-- What running a benchmark with some arguments comes to. -/
def outcome (b : Benchmark) (args : Arguments) : Outcome :=
  match b.setUpFailure, b.direct, b.timesOut, b.runFailure with
  | some f, _, _, _ => .failed f
  | none, true, _, _ => .returned b.value
  | none, false, true, _ => .timedOut
  | none, false, false, some f => .failed f
  | none, false, false, none => .returned (b.returned args)

/-- What the names of benchmarks start with. -/
def nameStart : String := "bench_"

/-- Keeps the last benchmark of each name. -/
def lastOfName : List Benchmark → List Benchmark
  | [] => []
  | b :: bs => if bs.any (·.name == b.name) then lastOfName bs else b :: lastOfName bs

/-- The benchmarks among named functions, in the order of their names. -/
def suite (bs : List Benchmark) : List Benchmark :=
  ((lastOfName bs).filter (·.name.startsWith nameStart)).mergeSort fun a b => !decide (b.name < a.name)

/-- The number of benchmarks that the text of a module defines. -/
def countDefined (source : String) : Nat :=
  ((Text.lines source).filter (·.startsWith ("def " ++ nameStart))).length

end Benchmark

end RuleProver
