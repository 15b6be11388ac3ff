import RuleProver.Console
import RuleProver.Text.Quoted

/-!
# Scripts

A script is a file of lines for the console. It can be run, which prints each line and what came
of it, or tested: a line of a test script may state, after a tilde, what is expected to come of it.
-/

namespace RuleProver.Script

open Colour

/-- The lines of a script that are not blank. -/
def scriptLines (text : String) : List String :=
  (Text.lines text).filter fun l => Text.trim l ≠ ""

/-- Runs lines in a console and returns what is printed. -/
def runLines (files : Files) (C : Console) : List String → String
  | [] => ""
  | line :: lines =>
    let (C, r) := C.process files (Text.trim line) none
    Text.trim line ++ "\n" ++ r.printed ++ runLines files C lines

/-- Runs a script. File names in it are relative to the directory of the script. -/
def run (files : Files) (base path text : String) : String :=
  let directory := Path.parent (Path.resolve base path)
  let (C, printed) := Console.start (Prover.initial directory) false
  printed ++ runLines files C (scriptLines text)

/-! ## Tests -/

/-- What a test line expects. -/
structure Expectation where
  success : Bool
  message : String

/-- Splits a text at the first pair of slashes. -/
def splitSlashes : List Char → Option (List Char × List Char)
  | '/' :: '/' :: cs => some ([], cs)
  | c :: cs => (splitSlashes cs).map fun (a, b) => (c :: a, b)
  | [] => none

/-- Reads an expectation. Before a pair of slashes it may say that an error is expected. -/
def Expectation.read (s : String) : Expectation :=
  let cs := Text.trimChars s.toList
  match splitSlashes cs with
  | some (word, message) =>
    ⟨Text.trim (String.ofList word) ≠ "error", String.ofList message⟩
  | none => ⟨true, String.ofList cs⟩

/-- A flag as it is printed. -/
def flagText (b : Bool) : String := if b then "True" else "False"

/-- What is printed about a line that does not meet its expectation. -/
def lineFailure (statement : String) (e : Expectation) (success : Bool) (message : String) :
    String :=
  Text.unlines
    [paint amber ("\n===== LINE FAILED =====\n" ++ statement),
      paint amber ("Expected success: " ++ flagText e.success ++ ", got " ++ flagText success),
      paint amber ("Expected message: " ++ e.message ++ ", got " ++ message)]

/-- Tests lines: what is printed, and how many lines do not meet their expectations. -/
def testLines (files : Files) (C : Console) : List String → String × Nat
  | [] => ("", 0)
  | line :: lines =>
    let echo := if C.silent then "" else Text.trim line ++ "\n"
    match Text.splitWhere (· == '~') line.toList with
    | statement :: expected :: _ =>
      let e := Expectation.read (String.ofList expected)
      let (C, r) := C.process files (Text.trim (String.ofList statement)) none
      let (success, message) := r.outcome.getD (false, "")
      let met := success = e.success ∧ Text.trim message = Text.trim e.message
      let (printed, issues) := testLines files C lines
      if met then (echo ++ r.printed ++ printed, issues)
      else
        (echo ++ r.printed ++ lineFailure (String.ofList statement) e success message ++ printed,
          issues + 1)
    | _ =>
      let (C, r) := C.process files (Text.trim line) none
      let (printed, issues) := testLines files C lines
      (echo ++ r.printed ++ printed, issues)

/-- Tests one script: what is printed, and how many issues there are. -/
def testFile (files : Files) (base path text : String) (silent : Bool) : String × Nat :=
  let directory := Path.parent (Path.resolve base path)
  let (C, printed) := Console.start (Prover.initial directory) silent
  let (more, issues) := testLines files C (scriptLines text)
  (printed ++ more, issues)

/-- What is printed at the end of the test of one script. -/
def fileReport (path : String) (issues : Nat) : String :=
  if issues = 0 then paint green ("===== FILE PASSED ===== : " ++ path) ++ "\n"
  else
    paint red ("\n\n===== FILE FAILED =====\n" ++ path ++ " (" ++ Text.decimal issues
      ++ " issues)") ++ "\n"

/-- Tests scripts, given as paths and texts. The paths of all scripts there are come first. -/
def test (files : Files) (base : String) (paths : List String) (scripts : List (String × String))
    (silent : Bool) : String :=
  let outcomes := scripts.map fun (path, text) =>
    let (printed, issues) := testFile files base path text silent
    (printed ++ fileReport path issues, issues)
  let failed := (outcomes.filter (·.2 ≠ 0)).length
  Text.quotedList paths ++ "\n" ++ String.join (outcomes.map (·.1))
    ++ "\n===== TEST SUMMARY =====\n"
    ++ Text.decimal (outcomes.length - failed) ++ " files passed, "
    ++ Text.decimal failed ++ " files failed, "
    ++ Text.decimal ((outcomes.map (·.2)).foldl (· + ·) 0) ++ " issues\n"

end RuleProver.Script
