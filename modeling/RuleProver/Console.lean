import RuleProver.Message
import RuleProver.Prover

/-!
# The console

The console takes lines from a user. A line that starts with a colon is a command to the console;
any other line is for the prover. What happened is printed with a sign for success or failure, in
colour, unless the console is silent.
-/

namespace RuleProver

namespace Colour

def green : String := "\x1b[92m"

def red : String := "\x1b[91m"

def amber : String := "\x1b[93m"

def cyan : String := "\x1b[96m"

def bold : String := "\x1b[1m"

def reset : String := "\x1b[0m"

/-- A text between a colour and the return to the normal colour. -/
def paint (colour text : String) : String := colour ++ text ++ reset

end Colour

/-- The state of a console. -/
structure Console where
  prover : Prover
  silent : Bool

/-- What came of a line: success and message, unless it broke off, and what was printed. -/
structure Console.Response where
  outcome : Option (Bool × String)
  printed : String

namespace Console

open Colour

/-- The commands with their descriptions. -/
def commands : List (String × String) :=
  [(":help", "Show help"),
    (":exit", "Exit the CLI"),
    (":undo", "Undo last operation"),
    (":checkpoint <name>", "Create named checkpoint"),
    (":rollback <name>", "Rollback to checkpoint")]

/-- The banner that a console starts with. -/
def banner : String :=
  Text.unlines
    [paint (bold ++ cyan) "╔═══════════════════════════════════════════════════╗",
      paint (bold ++ cyan) "║    Endive Proof Assistant - CLI Mode              ║",
      paint (bold ++ cyan) "╚═══════════════════════════════════════════════════╝"]

/-- The help page in colour. -/
def helpPage : String :=
  Text.unlines
    (["\n" ++ paint bold "Endive Proof Assistant Commands:", "",
        paint bold "Available Commands:"]
      ++ commands.map (fun (command, description) =>
        "  " ++ paint cyan command ++ " - " ++ description)
      ++ [""])

/-- The help text as a message. -/
def helpText : String :=
  Text.join "\n"
    (["\nEndive Proof Assistant Commands:", "", "Available Commands:"]
      ++ commands.map (fun (command, description) => "  " ++ command ++ " - " ++ description)
      ++ [""])

/-- A new console, and what it prints at first. -/
def start (prover : Prover) (silent : Bool) : Console × String :=
  (⟨prover, silent⟩, if silent then "" else banner)

/-- Carries out a command. -/
def command (P : Prover) (line : String) : Prover × Bool × String :=
  match Text.firstWord line with
  | (":help", _) => (P, true, helpText)
  | (":exit", _) => (P, false, "Cannot exit in non-interactive mode")
  | (":undo", _) =>
    match P.undo with
    | (some v, P) => (P, true, v.name ++ " undone")
    | (none, P) => (P, false, "Nothing to undo")
  | (":checkpoint", some name) => (P.mark name, true, "Checkpoint '" ++ name ++ "' created")
  | (":checkpoint", none) => (P, false, "Usage: :checkpoint <name>")
  | (":rollback", some name) =>
    match P.rollback name with
    | (true, P) => (P, true, "Rolled back to '" ++ name ++ "'")
    | (false, P) => (P, false, "Checkpoint '" ++ name ++ "' not found")
  | (":rollback", none) => (P, false, "Usage: :rollback <name>")
  | (word, _) => (P, false, "Unknown command: " ++ word)

/-- Carries out a line as a command or a directive. -/
def carryOut (files : Files) (P : Prover) (line : String) :
    Prover × Except Fault (Bool × String) :=
  if line.toList.head? = some ':' then
    let (P, success, message) := command P line
    (P, .ok (success, message))
  else
    match P.process files line with
    | (P, .error f) => (P, .error f)
    | (P, .ok a) =>
      (P, (a.results.mapM Result.shown).map fun ms => (a.success, Text.join "\n" ms))

/-- The printed form of a success or a failure. -/
def report (success : Bool) (message : String) : String :=
  if success then paint green "✓" ++ " " ++ message ++ "\n"
  else paint red ("✗ " ++ message) ++ "\n"

/-- Takes a line. A silent console prints only when told to, or when the line breaks off. -/
def process (files : Files) (C : Console) (line : String) (silent? : Option Bool) :
    Console × Response :=
  match carryOut files C.prover line with
  | (P, .ok (success, message)) =>
    let printed := !C.silent || silent? = some false
    ({ C with prover := P },
      ⟨some (success, message), if printed then report success message else ""⟩)
  | (P, .error f) => ({ C with prover := P }, ⟨none, report false f.message⟩)

/-- What a user does at the prompt. -/
inductive Input where
  /-- Types a line. -/
  | line (text : String)
  /-- Interrupts. -/
  | interrupt

/-- The words at the end. -/
def farewell : String := paint cyan "Goodbye!" ++ "\n"

/-- The prompt. -/
def prompt : String := "> "

/-- What is printed for a line typed at the prompt, and the console after it unless the user
leaves. -/
def atPrompt (files : Files) (C : Console) (text : String) : String × Option Console :=
  let line := Text.trim text
  if line = "" then ("", some C)
  else if line = ":exit" then (farewell, none)
  else
    let (C, r) := C.process files line none
    (r.printed, some C)

/-- The prompt loop: everything that is printed until the user leaves or the input ends. -/
def converse (files : Files) (C : Console) : List Input → String
  | [] => prompt ++ "\n" ++ farewell
  | .interrupt :: more =>
    prompt ++ "\n" ++ paint cyan "Use :exit to quit" ++ "\n" ++ C.converse files more
  | .line text :: more =>
    match C.atPrompt files text with
    | (printed, some C) => prompt ++ printed ++ C.converse files more
    | (printed, none) => prompt ++ printed

end Console

end RuleProver
