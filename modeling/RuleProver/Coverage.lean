import RuleProver.Benchmark
import RuleProver.Text.Pad

/-!
# Coverage

How much of the code under test a suite of benchmarks runs: the failures met on the way, a line that
sums it up, and a table of the files, least covered first.
-/

namespace RuleProver

/-- The coverage of one file. -/
structure FileCoverage where
  path : String
  statements : Nat
  missing : Nat
  percent : Float
  missingLines : List Nat

/-- The coverage of all files together. -/
structure CoverageTotals where
  covered : Nat
  statements : Nat
  percent : Float

namespace Coverage

/-- The failures met when each benchmark of a suite is run, by name. -/
def failures (suite : List Benchmark) : List (String × String) :=
  suite.filterMap fun b =>
    match b.outcome [] with
    | .failed f => some (b.name, f.message)
    | _ => none

/-- The name that a failure to load the benchmarks is listed under. -/
def loadingName : String := "<import>"

/-- The line that sums up a measurement. -/
def summary (t : CoverageTotals) (benchmarks failures : Nat) : String :=
  "coverage: " ++ Decimal.fixed 1 t.percent ++ "% (" ++ Text.decimal t.covered ++ "/"
    ++ Text.decimal t.statements ++ " stmts, " ++ Text.decimal benchmarks ++ " benches, "
    ++ Text.decimal failures ++ " errors)\n"

/-! ## The table -/

/-- The widest column of names. -/
def widestName : Nat := 60

/-- The number of missing lines that are listed. -/
def listedLines : Nat := 12

/-- A path as it stands in the table: without the repository in front, and cut to the widest
column. -/
def shownPath (repository path : String) : String :=
  let start := (repository ++ "/").toList
  let cs := path.toList
  String.ofList ((if start.isPrefixOf cs then cs.drop start.length else cs).take widestName)

/-- The missing lines of a file, the first of them only if there are many. -/
def shownLines (ns : List Nat) : String :=
  Text.join "," ((ns.take listedLines).map Text.decimal)
    ++ if listedLines < ns.length then "…" else ""

/-- The columns of numbers. -/
def columns (statements missing cover : String) : String :=
  "  " ++ Text.padLeft 5 statements ++ "  " ++ Text.padLeft 4 missing ++ "  "
    ++ Text.padLeft 5 cover

/-- The columns of numbers for some statements. -/
def numberColumns (statements : Nat) (missing : Int) (percent : Float) : String :=
  columns (Text.decimal statements) (Value.intLiteral missing) (Decimal.fixed 0 percent ++ "%")

/-- The width of the column of names. -/
def nameWidth (names : List String) : Nat := names.foldl (fun w s => max w s.length) 4

/-- The width of the table apart from the names. -/
def ruleWidth : Nat := 42

/-- The lines of the table of files. -/
def table (repository : String) (files : List FileCoverage) (t : CoverageTotals) : List String :=
  let sorted := files.mergeSort fun f g => !decide (g.percent < f.percent)
  let w := nameWidth (files.map fun f => shownPath repository f.path)
  let rule := String.ofList (List.replicate (w + ruleWidth) '-')
  [Text.padRight w "Name" ++ columns "Stmts" "Miss" "Cover" ++ "  Missing", rule]
    ++ sorted.map (fun f => Text.padRight w (shownPath repository f.path)
      ++ numberColumns f.statements f.missing f.percent ++ "  " ++ shownLines f.missingLines)
    ++ [rule, Text.padRight w "TOTAL"
      ++ numberColumns t.statements (t.statements - t.covered) t.percent]

end Coverage

end RuleProver
