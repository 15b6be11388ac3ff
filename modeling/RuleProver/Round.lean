import RuleProver.Coverage
import RuleProver.SelfCheck

/-!
# Rounds of measurement

One round of work on a suite of benchmarks is measured by three tools, for coverage, own time and
self-checks, and by the state of the repository. From their results come a report, a record of the
round, and the advice to stop when no benchmark has too little own time.
-/

namespace RuleProver

/-- What came of a tool: it wrote some errors and a report, or it could not be run or understood. -/
inductive ToolRun (α : Type) where
  | ended (errors : String) (report : α)
  | broken (errors : String) (f : Failure)

/-- What came of measuring coverage. -/
structure CoverageRun where
  code : Int
  output : String
  errors : String
  /-- The totals, the files, and the number of benchmarks that failed. -/
  report : Option (CoverageTotals × List FileCoverage × Nat)

/-- All that a round is judged by. -/
structure Round where
  coverage : CoverageRun
  /-- The own time of the benchmarks in percent. -/
  ownTime : Option (ToolRun (List (String × Float)))
  selfCheck : Option (ToolRun (List (String × Observation)))
  /-- What the version control says of the files of the repository. -/
  changes : String
  /-- The text of the module of benchmarks. -/
  source : String
  /-- The number of rounds before this one, and when the last of them was. -/
  earlier : Nat
  lastTime : Option Float
  started : Float
  ended : Float
  time : Float

/-- The record of a round. -/
structure RoundRecord where
  round : Nat
  time : Float
  sinceLast : Float
  totals : CoverageTotals
  benchmarks : Nat
  failures : Nat
  seconds : Float
  ownTime : List (String × Float)
  belowLimit : Option Nat
  findings : List (String × Finding)
  toMend : Nat

/-- The tools that a round runs. -/
inductive Tool where
  | coverage
  | ownTime
  | changes
  | selfCheck
deriving DecidableEq

/-- The report of a round. -/
structure RoundReport where
  output : String
  errors : String
  exit : Option Int
  calls : List Tool
  record : Option RoundRecord

namespace ToolRun

/-- The report of a tool that may not be there or not run. -/
def reportOf {α : Type} (none' : α) : Option (ToolRun α) → α
  | some (.ended _ r) => r
  | _ => none'

/-- What a tool adds to the error text. -/
def errorsOf {α : Type} (name : String) : Option (ToolRun α) → String
  | some (.ended errors _) => errors
  | some (.broken errors f) => errors ++ "[" ++ name ++ " runner: " ++ f.message ++ "]\n"
  | none => ""

end ToolRun

namespace Round

/-- The part of the text that a tool writes which holds its report: the last line. -/
def reportLine? (output : String) : Option String := (Text.lines (Text.trim output)).getLast?

/-- The failure to read a report that is no report at all. -/
def unreadableReport : Failure :=
  ⟨"JSONDecodeError", [.text "Expecting value: line 1 column 1 (char 0)"]⟩

/-- The lines of the record of rounds that are not blank. -/
def recordLines (text : String) : List String :=
  (Text.lines text).filter fun l => Text.trim l ≠ ""

/-- The files that have changed: what stands in a line of the list after the two letters of its
state. -/
def changedFiles (changes : String) : List String :=
  ((Text.lines changes).filter fun l => Text.trim l ≠ "").map fun l => String.ofList (l.toList.drop 3)

/-- The percentage of own time below which a benchmark is marked. -/
def ownTimeLimit : Float := 45.0

/-- Whether a percentage of own time is known and too small. -/
def isBelow (percent : Float) : Bool := 0 ≤ percent && percent < ownTimeLimit

/-- The mark of a row that needs attention. -/
def mark (b : Bool) : String := if b then "*" else " "

/-- The first columns of a row: a mark and a name. -/
def rowStart (marked : Bool) (name : String) : String :=
  "  " ++ mark marked ++ " " ++ Text.padRight 32 name ++ " "

/-- The lines on own time, least first. -/
def ownTimeLines (times : List (String × Float)) : List String :=
  if times.isEmpty then []
  else
    "repo_time (target 50%; * = below 45%):"
      :: (times.mergeSort fun a b => !decide (b.2 < a.2)).map (fun (name, percent) =>
        rowStart (isBelow percent) name
          ++ Text.padLeft 5 (Decimal.fixed 1 (if percent < 0 then 0.0 else percent)) ++ "%"
          ++ if percent < 0 then "  <error>" else "")
      ++ [""]

/-- The number of changed files that are listed. -/
def listedChanges : Nat := 10

/-- The lines on changed files. -/
def changeLines (files : List String) : List String :=
  if files.isEmpty then []
  else
    ("** repo modified (" ++ Text.decimal files.length
        ++ " file(s)) — revert these; only microbench.py is yours to edit:")
      :: (files.take listedChanges).map ("   " ++ ·) ++ [""]

/-- What the findings of a self-check ask for. -/
def selfCheckHeading : List String :=
  ["self-check (* = fix needed):",
    "  returns-none: run() has no return — collect and return the call results",
    "  unstable: seed RNG in setup; avoid time/uuid/id in the return",
    "  returns-input: return repo output, not the parameter value",
    "  low-repo-time: <50% of run() time is in repo code — move glue to setup",
    "  param-invariant: return something derived from run()'s work, not setup",
    "  repo-modified: revert edits to repo files (git checkout -- <path>)"]

/-- The row of a benchmark in the self-check. -/
def selfCheckRow (name : String) (o : Observation) (v : Finding) : String :=
  rowStart (!v.passes) name ++ Text.padRight 16 v.label ++ " (" ++ o.kind.getD "?" ++ ", repo "
    ++ Decimal.fixed 0 (100.0 * o.leastShare?.getD 0.0) ++ "%) "
    ++ Decimal.fixed 1 (o.typicalMillis?.getD 0.0) ++ "ms"

/-- The lines on self-checks: what is to be mended comes first. -/
def selfCheckLines (modified : Bool) (observations : List (String × Observation)) : List String :=
  if observations.isEmpty then []
  else
    let rows := observations.map fun (name, o) => (name, o, o.finding modified)
    let sorted := rows.mergeSort fun a b => !decide (b.1 < a.1)
    selfCheckHeading
      ++ (sorted.filter (!·.2.2.passes) ++ sorted.filter (·.2.2.passes)).map
        (fun (name, o, v) => selfCheckRow name o v)
      ++ [""]

/-- The line that sums up a round. -/
def summary (r : RoundRecord) : String :=
  let measured := (r.ownTime.filter fun t => 0 ≤ t.2).length
  "[round " ++ Text.decimal r.round ++ ": " ++ Text.decimal r.benchmarks ++ " benches, "
    ++ Decimal.fixed 1 r.totals.percent ++ "% covered"
    ++ (if r.ownTime.isEmpty then ""
      else ", " ++ Text.decimal (r.belowLimit.getD 0) ++ "/" ++ Text.decimal measured
        ++ " below repo_time 45%")
    ++ (if r.findings.isEmpty then ""
      else ", " ++ Text.decimal r.toMend ++ "/" ++ Text.decimal r.findings.length
        ++ " not self-checking")
    ++ ", measured in " ++ Decimal.fixed 1 r.seconds ++ "s]"

/-- The advice to stop, when every measured benchmark has enough own time. -/
def adviceLines (r : RoundRecord) : List String :=
  if r.belowLimit = some 0 then
    ["", ">>> STOP: repo_time converged (0 below). Finalize microbench.py now. <<<"]
  else []

/-- The record of a round whose coverage could be measured. -/
def record (r : Round) (totals : CoverageTotals) (failures : Nat) (modified : Bool) :
    RoundRecord :=
  let times := ToolRun.reportOf [] r.ownTime
  let findings := (ToolRun.reportOf [] r.selfCheck).map fun (name, o) => (name, o.finding modified)
  { round := r.earlier + 1
    time := r.time
    sinceLast := match r.lastTime with
      | some t => Decimal.roundTo 2 (r.time - t)
      | none => 0.0
    totals
    benchmarks := Benchmark.countDefined r.source
    failures
    seconds := Decimal.roundTo 3 (r.ended - r.started)
    ownTime := times
    belowLimit :=
      if times.any (fun t => decide (0 ≤ t.2)) then some (times.filter fun t => isBelow t.2).length
      else none
    findings
    toMend := (findings.filter (!·.2.passes)).length }

/-- The report of a round. Without coverage there is no more to say, and nothing is recorded. -/
def report (r : Round) : RoundReport :=
  let failed : RoundReport :=
    { output := "coverage measurement failed (exit " ++ Value.intLiteral r.coverage.code ++ ")\n"
        ++ r.coverage.output ++ "\n"
      errors := r.coverage.errors
      exit := some (if r.coverage.code = 0 then 1 else r.coverage.code)
      calls := [.coverage]
      record := none }
  match r.coverage.report with
  | none => failed
  | some (totals, files, failures) =>
    if r.coverage.code ≠ 0 then failed
    else
      let changed := if r.selfCheck.isSome then changedFiles r.changes else []
      let rec' := r.record totals failures (!changed.isEmpty)
      { output := Text.unlines <|
          Coverage.table Profile.repository files totals ++ [""] ++ ownTimeLines rec'.ownTime
            ++ changeLines changed
            ++ selfCheckLines (!changed.isEmpty) (ToolRun.reportOf [] r.selfCheck)
            ++ [summary rec'] ++ adviceLines rec'
        errors := r.coverage.errors ++ ToolRun.errorsOf "repotime" r.ownTime
          ++ ToolRun.errorsOf "semcheck" r.selfCheck
        exit := none
        calls := [Tool.coverage] ++ (if r.ownTime.isSome then [.ownTime] else [])
          ++ if r.selfCheck.isSome then [.changes, .selfCheck] else []
        record := some rec' }

end Round

end RuleProver
