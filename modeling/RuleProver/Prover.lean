import RuleProver.Files
import RuleProver.Session

/-!
# The prover

The prover reads lines, carries out their directives in a session, and imports files of lines. A
file is imported once; a file that is being imported cannot be imported again from within. The
path of a file is found from its name, in which dots divide directories, relative to the file
that imports it.
-/

namespace RuleProver

/-- A session together with what it has imported. -/
structure Prover where
  session : Session
  /-- The directory for names that are not met inside a file. -/
  base : String
  /-- The files whose import has been completed. -/
  imported : List String
  /-- The files that are being imported, the innermost last. -/
  importing : List String

namespace Prover

/-- A new prover on a session. -/
def ofSession (S : Session) (base : String) : Prover := ⟨S, base, [], []⟩

/-- A new prover. -/
def initial (base : String) : Prover := ofSession Session.initial base

/-- The directory in which file names are looked up. -/
def directory (P : Prover) : String := (P.importing.getLast?.map Path.parent).getD P.base

/-- The path of the file with a name, looked up in a directory. -/
def pathIn (directory name : String) : String :=
  let dashed := String.ofList (name.toList.map fun c => if c = '.' then '/' else c)
  Path.resolve directory (dashed ++ ".end")

theorem slash_not_mem_end {name : String} (h : '/' ∉ name.toList) :
    '/' ∉ (name ++ ".end").toList := by
  rw [String.toList_append, List.mem_append]
  rintro (hc | hc)
  · exact h hc
  · exact absurd hc (by decide)

theorem pathIn_of_plain {directory name : String} (h : ∀ c ∈ name.toList, c ≠ '.' ∧ c ≠ '/') :
    pathIn directory name = directory ++ "/" ++ (name ++ ".end") := by
  have hdashed : (name.toList.map fun c => if c = '.' then '/' else c) = name.toList := by
    refine (List.map_congr_left fun c hc => ?_).trans (List.map_id _)
    exact if_neg (h c hc).1
  have hslash : '/' ∉ (name ++ ".end").toList := slash_not_mem_end fun hc => (h _ hc).2 rfl
  have hname : ∀ s : String, s.length < 4 → name ++ ".end" ≠ s := by
    rintro s hs rfl
    rw [String.length_append] at hs
    exact Nat.not_lt_of_le (Nat.le_add_left 4 _) hs
  rw [pathIn, hdashed, String.ofList_toList]
  exact Path.resolve_of_not_mem hslash (hname _ (by decide)) (hname _ (by decide))
    (hname _ (by decide))

/-- The path of the file with a name. -/
def pathOf (P : Prover) (name : String) : String := pathIn P.directory name

/-- The name of the file that a line asks to import. -/
def importedName? (line : String) : Option String :=
  match Directive.parse line with
  | .ok (some ⟨"Using", t :: _⟩) => t.handle
  | _ => none

/-- Carries out a directive in the session. -/
def direct [HoleOrder] (P : Prover) (d : Directive) : Prover × Except Fault Answer :=
  let (S, a) := P.session.process d
  ({ P with session := S }, a)

/-- Takes back the last directive. -/
def undo (P : Prover) : Option Verb × Prover :=
  let (v?, S) := P.session.undo
  (v?, { P with session := S })

/-- Marks the current moment of the session. -/
def mark (P : Prover) (name : String) : Prover := { P with session := P.session.mark name }

/-- Returns to a marked moment of the session. What has been imported stays imported. -/
def rollback (P : Prover) (name : String) : Bool × Prover :=
  let (b, S) := P.session.rollback name
  (b, { P with session := S })

/-- The lines of a file that hold directives. -/
def directiveLines (text : String) : List String :=
  ((Text.lines text).map Text.trim).filter fun l => !Directive.isIdle l.toList

/-- The answer when no file can be read at a path. -/
def noFile (path : String) : Absence → Except Fault Answer
  | .nothing => .ok (.failed (.error ("File not found: " ++ path)))
  | .closed cause => .ok (.failed (.error ("Import error: " ++ cause.message path)))
  | .broken cause => .error (.unopened cause path)

/-- Starts the import of a file. -/
def enter (P : Prover) (path : String) : Prover :=
  { P with importing := P.importing ++ [path] }

/-- Ends the import of a file. -/
def leave (P : Prover) : Prover := { P with importing := P.importing.dropLast }

/-- Completes the import of a file. -/
def complete (P : Prover) (name path : String) : Prover :=
  { P.leave with imported := P.imported ++ [path] }.mark ("import:" ++ name)

theorem length_without_lt {fs : FileSystem} {path text : String} (h : fs.text? path = some text) :
    (fs.without [path]).files.length < fs.files.length := by
  obtain ⟨before, after, hfiles, -⟩ := List.lookup_eq_some_iff.mp h
  refine List.length_filter_lt_length_iff_exists.2 ⟨(path, text), ?_, by simp⟩
  rw [hfiles]
  exact List.mem_append_right _ List.mem_cons_self

variable [HoleOrder]

mutual

/-- Carries out a line. The files of `fs` are those that are not being imported. -/
def runLine (fs : FileSystem) (line : String) (P : Prover) : Prover × Except Fault Answer :=
  match Directive.parse line with
  | .error e => (P, .error (.unreadable e))
  | .ok none => (P, .ok ⟨true, []⟩)
  | .ok (some d) =>
    if d.name = "Using" then
      match d.args with
      | [] => (P, .ok (.failed (.error "Using requires filename")))
      | t :: _ =>
        match t.handle with
        | some name => importFile fs name P
        | none => (P, .error .noFileName)
    else P.direct d
termination_by (fs.files.length, 1, 0)
decreasing_by all_goals exact Prod.Lex.right _ (Prod.Lex.left _ _ (by decide))

/-- Imports the file with a name. -/
def importFile (fs : FileSystem) (name : String) (P : Prover) : Prover × Except Fault Answer :=
  let path := P.pathOf name
  match fs.unresolved? path with
  | some cause => (P, .error (.unopened cause path))
  | none =>
    if P.imported.contains path then
      (P, .ok (.done (.notice "Import" ("Already imported: " ++ name))))
    else if P.importing.contains path then
      (P, .ok (.failed (.error ("Circular import: " ++ name))))
    else
      match _h : fs.text? path with
      | none => (P, noFile path (fs.absence path))
      | some text =>
        match runLines (fs.without [path]) (directiveLines text) (P.enter path) with
        | (P, .ok none) =>
          (P.complete name path, .ok (.done (.notice "Import" ("Imported: " ++ name))))
        | (P, .ok (some results)) => (P.leave, .ok ⟨false, results⟩)
        | (P, .error f) => (P.leave, .ok (.failed (.error ("Import error: " ++ f.message))))
termination_by (fs.files.length, 0, 0)
decreasing_by exact Prod.Lex.left _ _ (length_without_lt _h)

/-- Carries out lines until one fails, whose results are then returned. -/
def runLines (fs : FileSystem) (lines : List String) (P : Prover) :
    Prover × Except Fault (Option (List Result)) :=
  match lines with
  | [] => (P, .ok none)
  | line :: lines =>
    match runLine fs line P with
    | (P, .error f) => (P, .error f)
    | (P, .ok a) => if a.success then runLines fs lines P else (P, .ok (some a.results))
termination_by (fs.files.length, 2, lines.length)
decreasing_by
  · exact Prod.Lex.right _ (Prod.Lex.left _ _ (by decide))
  · exact Prod.Lex.right _ (Prod.Lex.right _ (Nat.lt_succ_self _))

end

/-- Carries out a line. -/
def process (fs : FileSystem) (line : String) (P : Prover) : Prover × Except Fault Answer :=
  runLine (fs.without P.importing) line P

end Prover

end RuleProver
