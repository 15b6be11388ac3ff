import RuleProver.Profile
import RuleProver.Value.Fingerprint

/-!
# Self-checks

A benchmark checks itself when its return value says something about its work: two runs return the
same, different parameters give different values, what is returned is not a parameter handed
through, and most of the time is spent in the code under test. `Observation.ofBenchmark` collects
what is seen of a benchmark, and `Observation.finding` judges it.
-/

namespace RuleProver

/-- What is seen of a benchmark. Shares and times are listed by the label of the arguments. -/
structure Observation where
  /-- The kind of the returned value, or a kind of failure in angle brackets. -/
  kind : Option String
  /-- The fingerprints of repeated runs. -/
  repeated : List String
  /-- The fingerprint of a run with each set of arguments. -/
  byArguments : List (String × String)
  /-- The fingerprints of the arguments themselves. -/
  arguments : List String
  ownMillis : List (String × Float)
  ownShare : List (String × Float)
  compiledShare : List (String × Float)

namespace Observation

/-- What is seen of a benchmark that does not return. -/
def ofKind (kind : String) : Observation := ⟨some ("<" ++ kind ++ ">"), [], [], [], [], [], []⟩

/-- The label of a run without arguments. -/
def defaultLabel : String := "<default>"

/-- The fingerprint of what a run returns, if it returns. -/
def fingerprint? (b : Benchmark) (args : Arguments) : Option String :=
  match b.outcome args with
  | .returned v => some v.fingerprint
  | _ => none

/-- What is seen of a benchmark, with profiles taken from the `n`th on: one for the run without
arguments, and one for each set of arguments. -/
def ofBenchmark (ps : List Profile) (n : Nat) (b : Benchmark) : Observation × Nat :=
  match b.outcome [] with
  | .failed f => (ofKind f.kind, n)
  | .timedOut => (ofKind "timeout", n)
  | .returned v =>
    let labels := defaultLabel :: b.parameters.map Arguments.label
    let profiles := labels.zipIdx.map fun (l, i) => (l, Profile.nth ps (n + i))
    let fp := v.fingerprint
    (⟨some v.kind, [fp, fp],
      b.parameters.filterMap fun args => (fingerprint? b args).map fun s => (args.label, s),
      b.parameters.flatMap fun args => args.map fun a => a.2.fingerprint,
      profiles.map fun (l, p) => (l, p.ownMillis),
      profiles.map fun (l, p) => (l, p.ownShare),
      profiles.map fun (l, p) => (l, p.compiledShare)⟩, n + labels.length)

/-- What is seen of each benchmark of a suite, with profiles taken from the `n`th on. -/
def ofSuite (ps : List Profile) : Nat → List Benchmark → List (String × Observation)
  | _, [] => []
  | n, b :: bs =>
    let (o, m) := ofBenchmark ps n b
    (b.name, o) :: ofSuite ps m bs

end Observation

/-! ## Findings -/

/-- What is to be said of a benchmark. -/
inductive Finding where
  | repositoryModified
  | failed
  | returnsNothing
  | unstable
  | returnsArgument
  | littleOwnTime
  | tooFast
  | invariant
  | withoutParameters
  | sound
deriving DecidableEq

namespace Finding

/-- The name of a finding. -/
def label : Finding → String
  | repositoryModified => "repo-modified"
  | failed => "error"
  | returnsNothing => "returns-none"
  | unstable => "unstable"
  | returnsArgument => "returns-input"
  | littleOwnTime => "low-repo-time"
  | tooFast => "too-fast"
  | invariant => "param-invariant"
  | withoutParameters => "ok-unparam"
  | sound => "ok"

/-- Whether there is nothing to mend. -/
def passes : Finding → Bool
  | withoutParameters | sound => true
  | _ => false

end Finding

/-- The least of some numbers. -/
def least? : List Float → Option Float
  | [] => none
  | x :: xs => some (xs.foldl (fun a b => if b < a then b else a) x)

/-- The median of some numbers: the middle one, or the mean of the two in the middle. -/
def median? (xs : List Float) : Option Float :=
  let ys := xs.mergeSort fun a b => !decide (b < a)
  if ys.length % 2 = 1 then ys[ys.length / 2]?
  else do
    let a ← ys[ys.length / 2 - 1]?
    let b ← ys[ys.length / 2]?
    if ys.isEmpty then none else return (a + b) / 2.0

/-- Whether all members of a list are equal. -/
def allEqual {α : Type} [BEq α] : List α → Bool
  | [] => true
  | x :: xs => xs.all (· == x)

namespace Observation

/-- The least fraction of own time among the runs. -/
def leastShare? (o : Observation) : Option Float := least? (o.ownShare.map (·.2))

/-- The median of the own times of the runs. -/
def typicalMillis? (o : Observation) : Option Float := median? (o.ownMillis.map (·.2))

/-- The least fraction of own time that a benchmark should have. -/
def ownShareLimit : Float := 0.5

/-- The least own time in milliseconds that a benchmark should take. -/
def millisLimit : Float := 1.0

/-- Whether the benchmark failed: its kind is missing or stands in angle brackets. -/
def isFailure (o : Observation) : Bool :=
  match o.kind with
  | some k => k.startsWith "<"
  | none => true

/-- The finding on a benchmark; the first fault that applies counts. -/
def finding (modified : Bool) (o : Observation) : Finding :=
  if modified then .repositoryModified
  else if o.isFailure then .failed
  else if o.kind == some "NoneType" then .returnsNothing
  else if o.repeated.isEmpty || !allEqual o.repeated then .unstable
  else if o.repeated.any (o.arguments.contains ·) then .returnsArgument
  else if o.leastShare?.any (decide <| · < ownShareLimit) then .littleOwnTime
  else if o.typicalMillis?.any (decide <| · < millisLimit) then .tooFast
  else if o.byArguments.length < 2 then .withoutParameters
  else if allEqual (o.byArguments.map (·.2)) then .invariant
  else .sound

end Observation

end RuleProver
