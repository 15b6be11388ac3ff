import RuleProver.Script

/-!
# The command line

The program is called with words. `--debug` and `--test` are options, which may be shortened as long
as something of the name is left, `-h` and `--help` ask for help, and one other word may name a
script. Behind `--` no word is an option. Without a script the program talks to the user.

A word that starts with a dash names a script all the same when it looks like a negative number or
has a space in it. Any other such word is unknown, and the program then refuses to start.
-/

namespace RuleProver.CommandLine

/-! ## Words -/

/-- What a word of the command line is. -/
inductive Word where
  /-- The name of a script. -/
  | plain (text : String)
  | debug
  | test
  | help
  /-- An option that is given a value or a letter more, although it takes none. -/
  | overfed
  /-- An option that could be any. -/
  | ambiguous
  /-- Something like an option that is none. -/
  | unknown
deriving DecidableEq

/-- The long options. -/
def longOptions : List (String × Word) :=
  [("--help", .help), ("--debug", .debug), ("--test", .test)]

/-- A minus sign before digits, which may have a point in front of the last of them. One line feed
may follow. -/
def isNegative (cs : List Char) : Bool :=
  match cs with
  | '-' :: body =>
    let body := if body.getLast? = some '\n' then body.dropLast else body
    let digits := body.dropWhile Text.isDecimalDigit
    match digits with
    | [] => !body.isEmpty
    | '.' :: more => !more.isEmpty && more.all Text.isDecimalDigit
    | _ => false
  | _ => false

/-- A word with a dash that is no option. -/
def strange (text : String) : Word :=
  if isNegative text.toList || text.toList.contains ' ' then .plain text else .unknown

/-- Reads what follows `-h`: further short options, of which `h` is the only one. They may stand
behind an equality sign, but then there must be one. -/
def shortHelp (cs : List Char) : Word :=
  let letters := if cs.head? = some '=' then cs.tail else cs
  if cs ≠ ['='] ∧ letters.all (· == 'h') then .help else .overfed

/-- Reads a word with two dashes. What stands behind an equality sign is a value. -/
def longWord (text : String) : Word :=
  let name := text.toList.takeWhile (· != '=')
  match longOptions.filter fun o => name.isPrefixOf o.1.toList with
  | [] => strange text
  | [(_, w)] => if text.toList.contains '=' then .overfed else w
  | _ => .ambiguous

/-- Reads a word. -/
def Word.read (text : String) : Word :=
  match text.toList with
  | '-' :: '-' :: _ => longWord text
  | '-' :: 'h' :: cs => shortHelp cs
  | '-' :: _ :: _ => strange text
  | _ => .plain text

/-! ## Options -/

/-- The options of the program. -/
structure Options where
  debug : Bool := false
  test : Bool := false
  file : Option String := none

/-- What the words of the command line ask for. -/
inductive Request where
  /-- To explain the command line. -/
  | help
  /-- Nothing that can be done. -/
  | refused
  /-- To run with options. -/
  | run (options : Options)

/-- What has been read of the command line. -/
structure Reading where
  options : Options := {}
  /-- Whether a word was left over. -/
  surplus : Bool := false
  /-- Whether the last word named the script. -/
  justNamed : Bool := false

namespace Reading

/-- Takes a word for the name of the script, if there is none yet. -/
def name (r : Reading) (text : String) : Reading :=
  if r.options.file.isSome then { r with surplus := true, justNamed := false }
  else { r with options := { r.options with file := some text }, justNamed := true }

/-- What is asked for at the end. -/
def finish (r : Reading) : Request := if r.surplus then .refused else .run r.options

/-- Reads on behind the mark that ends the options. The mark itself is left over when the script
was named before an option. -/
def afterMark (r : Reading) (texts : List String) : Request :=
  let marked := { r with surplus := r.surplus || (r.options.file.isSome && !r.justNamed) }
  (texts.foldl name marked).finish

/-- Reads words one after the other. -/
def words (r : Reading) : List String → Request
  | [] => r.finish
  | "--" :: texts => r.afterMark texts
  | text :: texts =>
    match Word.read text with
    | .plain text => (r.name text).words texts
    | .debug => words { r with options := { r.options with debug := true }, justNamed := false } texts
    | .test => words { r with options := { r.options with test := true }, justNamed := false } texts
    | .unknown => words { r with surplus := true, justNamed := false } texts
    | .help => .help
    | .overfed | .ambiguous => .refused

end Reading

/-- Reads the command line. An ambiguous option is refused before all else. -/
def Request.read (texts : List String) : Request :=
  if (texts.takeWhile (· != "--")).any fun t => Word.read t = .ambiguous then .refused
  else Reading.words {} texts

/-- The explanation of the command line. -/
def usage : String :=
  Text.unlines
    ["usage: main.py [-h] [--debug] [--test] [file]", "", "positional arguments:",
      "  file        Path to .end file to execute", "", "options:",
      "  -h, --help  show this help message and exit", "  --debug", "  --test"]

/-! ## Running -/

/-- What the program prints, and the exit code that it ends with of its own accord. -/
structure Ending where
  printed : String
  exitCode : Option Nat

/-- The name of an entry of the test directory that a path, read from the base directory, lies in
or leads to, when the entry has the suffix of scripts. -/
def testEntry? (path : String) : Option String :=
  match Path.parts (Path.resolve "" path) with
  | _ :: "tests" :: name :: _ =>
    if name.toList.reverse.take 4 == ['d', 'n', 'e', '.'] then some ("tests/" ++ name) else none
  | _ => none

/-- Tests the scripts of the test directory, or the one in focus only. An entry that cannot be
opened ends the program. -/
def runTests (files : Files) (base : String) (entries : List String) (options : Options) :
    Except Fault Ending := do
  let inFocus := entries.filter fun e => options.file = none ∨ options.file = some e
  let scripts ← inFocus.mapM fun e =>
    match files.open? base e with
    | .ok text => .ok (e, text)
    | .error f => .error (.unopened f e)
  return ⟨Script.test files base entries scripts (!options.debug), some 0⟩

/-- Runs the program: what it prints, given the files below the base directory by relative path,
the lines of the standard input and the words of the command line. -/
def run (relative : List (String × String)) (base : String) (input : List Console.Input)
    (texts : List String) : Except Fault Ending :=
  let files : Files := relative.map fun (path, text) => (Path.resolve base path, text)
  match Request.read texts with
  | .help => .ok ⟨usage, some 0⟩
  | .refused => .ok ⟨"", some 2⟩
  | .run options =>
    if options.test then
      runTests files base (relative.filterMap fun f => testEntry? f.1).eraseDups options
    else
      match options.file.filter (· ≠ "") with
      | some path =>
        match files.open? base path with
        | .ok text => .ok ⟨Script.run files base path text, none⟩
        | .error f => .error (.unopened f path)
      | none =>
        let (C, printed) := Console.start (Prover.initial base) false
        .ok ⟨printed ++ C.converse files input, none⟩

end RuleProver.CommandLine
