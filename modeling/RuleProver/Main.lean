import RuleProver.CommandLine

/-!
# The program

Reads the command line, the files and the standard input, and prints what the library answers.
-/

namespace RuleProver.Main

/-- The text of a file, if it can be read. -/
def readText? (path : String) : IO (Option String) := do
  try
    return some (← IO.FS.readFile path)
  catch _ =>
    return none

/-- Adds the files that lines ask to import, with those that these files import in turn. -/
partial def gather (files : Files) (directory : String) (lines : List String) : IO Files := do
  let mut files := files
  for line in lines do
    if let some name := Prover.importedName? line then
      let path := Prover.pathIn directory name
      if (files.lookup path).isNone then
        if let some text ← readText? path then
          files ← gather (files ++ [(path, text)]) (Path.parent path) (Prover.directiveLines text)
  return files

/-- Prints at once. -/
def put (s : String) : IO Unit := do
  let out ← IO.getStdout
  out.putStr s
  out.flush

/-- Talks to the user until they leave or the input ends. -/
partial def talk (directory : String) (files : Files) (C : Console) : IO Unit := do
  put Console.prompt
  let text ← (← IO.getStdin).getLine
  if text.isEmpty then
    put ("\n" ++ Console.farewell)
  else
    let files ← gather files directory [Text.trim text]
    match C.atPrompt files text with
    | (printed, some C) => do
      put printed
      talk directory files C
    | (printed, none) => put printed

/-- Says that a file cannot be read. -/
def cannotRead (path : String) : IO UInt32 := do
  IO.eprintln ("cannot read " ++ path)
  return 1

/-- Runs one script. -/
def runFile (base path : String) : IO UInt32 := do
  let file := Path.resolve base path
  match ← readText? file with
  | none => cannotRead path
  | some text =>
    let files ← gather [] (Path.parent file) (Prover.directiveLines text)
    put (Script.run files base path text)
    return 0

/-- The paths of the test scripts, in the order of their names. -/
def testPaths : IO (List String) := do
  try
    let entries ← ((← IO.currentDir) / "tests").readDir
    let paths := entries.toList.map fun e => "tests/" ++ e.fileName
    return (paths.filterMap CommandLine.testEntry?).mergeSort
  catch _ =>
    return []

/-- Tests the scripts, or the one in focus only. -/
def test (base : String) (silent : Bool) (focus : Option String) : IO UInt32 := do
  let mut scripts := []
  let mut files : Files := []
  let paths ← testPaths
  for path in paths.filter fun p => focus = none ∨ focus = some p do
    match ← readText? (Path.resolve base path) with
    | none => return ← cannotRead path
    | some text =>
      scripts := scripts ++ [(path, text)]
      let lines := (Prover.directiveLines text).map fun l => String.ofList (l.toList.takeWhile (· != '~'))
      files ← gather files (Path.parent (Path.resolve base path)) lines
  put (Script.test files base paths scripts silent)
  return 0

end RuleProver.Main

open RuleProver in
/-- The program: a conversation, the run of a script, or the test of one. -/
def main (args : List String) : IO UInt32 := do
  let base := (← IO.currentDir).toString
  match CommandLine.Request.read args with
  | .help =>
    Main.put CommandLine.usage
    return 0
  | .refused =>
    IO.eprint CommandLine.usage
    return 2
  | .run options =>
    if options.test then
      return ← Main.test base (!options.debug) options.file
    match options.file.filter (· ≠ "") with
    | some path => Main.runFile base path
    | none =>
      let (C, printed) := Console.start (Prover.initial base) false
      Main.put printed
      Main.talk base [] C
      return 0
