import RuleProver.Path
import RuleProver.Text.Digit
import RuleProver.Text.Quoted

/-!
# Files

A set of files is a list of paths with their texts. Opening a path follows its parts one by one, so
that every part but the last must lead to a directory, and says why it fails when it does.

What there is besides the files that can be read, and what happens when a path is asked for, is up
to the operating system. A `FileSystem` leaves it open: it has an answer for every path at which no
file can be read, and may refuse to resolve a path in the first place. The one that has nothing but
given files and directories is `FileSystem.ofFiles`.
-/

namespace RuleProver

/-- Files: paths with their texts. -/
abbrev Files := List (String × String)

/-- Why a path cannot be opened. -/
inductive OpenFault where
  /-- There is nothing at the path. -/
  | missing
  /-- The path goes on behind a file. -/
  | throughFile
  /-- The path leads to a directory. -/
  | directory
  /-- A part of the path, or the whole path, is too long. -/
  | tooLong
  /-- There is a null character in the path. -/
  | nullByte
  /-- Any other cause, with its own wording. -/
  | other (wording : String)
deriving DecidableEq

namespace OpenFault

/-- The wording of a fault at a path. -/
def message (path : String) : OpenFault → String
  | .missing => "[Errno 2] No such file or directory: " ++ Text.quoted path
  | .throughFile => "[Errno 20] Not a directory: " ++ Text.quoted path
  | .directory => "[Errno 21] Is a directory: " ++ Text.quoted path
  | .tooLong => "[Errno 36] File name too long: " ++ Text.quoted path
  | .nullByte => "embedded null byte"
  | .other wording => wording

end OpenFault

namespace Files

/-- The number of bytes that a part of a path may have. -/
def partLimit : Nat := 255

/-- The number of bytes that a path may have. -/
def pathLimit : Nat := 4095

/-- Whether there are files below a path. -/
def isDirectory (files : Files) (path : String) : Bool :=
  files.any fun f => (path ++ "/").toList.isPrefixOf f.1.toList

/-- The directory above a directory given by its parts, last part first. The root has none. -/
def above (dir : List String) : List String := if dir = [""] then dir else dir.tail

/-- Follows parts from a directory given by its parts, last part first, to the text of a file.
`isDir` tells which paths are those of directories. -/
def follow (files : Files) (isDir : String → Bool) (dir : List String) :
    List String → Except OpenFault String
  | [] => .error .directory
  | p :: ps =>
    if p = "" ∨ p = "." then follow files isDir dir ps
    else if p = ".." then follow files isDir (above dir) ps
    else if p.utf8ByteSize > partLimit then .error .tooLong
    else
      let path := Text.join "/" (p :: dir).reverse
      match files.lookup path with
      | some text => if ps.isEmpty then .ok text else .error .throughFile
      | none =>
        if isDir path then follow files isDir (p :: dir) ps else .error .missing

/-- Behind parts that lead to a directory, a part that is too long cannot be followed. -/
theorem follow_append_of_long {files : Files} {isDir : String → Bool} {dir ps : List String}
    {name : String} (hlong : partLimit < name.utf8ByteSize)
    (h : follow files isDir dir ps = .error .directory) :
    follow files isDir dir (ps ++ [name]) = .error .tooLong := by
  have hname : ∀ s : String, s.utf8ByteSize ≤ partLimit → name ≠ s := by
    rintro s hs rfl
    exact Nat.not_lt_of_le hs hlong
  induction ps generalizing dir with
  | nil =>
    rw [List.nil_append, follow, if_neg (not_or.mpr ⟨hname _ (by decide), hname _ (by decide)⟩),
      if_neg (hname _ (by decide)), if_pos hlong]
  | cons p ps ih =>
    rw [follow] at h
    rw [List.cons_append, follow]
    by_cases hskip : p = "" ∨ p = "."
    · rw [if_pos hskip] at h ⊢
      exact ih h
    rw [if_neg hskip] at h ⊢
    by_cases hup : p = ".."
    · rw [if_pos hup] at h ⊢
      exact ih h
    rw [if_neg hup] at h ⊢
    by_cases hsize : p.utf8ByteSize > partLimit
    · rw [if_pos hsize] at h
      cases h
    rw [if_neg hsize] at h ⊢
    dsimp only at h ⊢
    -- Of what `p` can lead to, only a directory lets the rest of the parts end in one.
    cases hfile : files.lookup (Text.join "/" (p :: dir).reverse) with
    | some text =>
      rw [hfile] at h
      dsimp only at h
      split at h <;> cases h
    | none =>
      rw [hfile] at h
      dsimp only at h ⊢
      by_cases hdir : isDir (Text.join "/" (p :: dir).reverse) = true
      · rw [if_pos hdir] at h ⊢
        exact ih h
      · rw [if_neg hdir] at h
        cases h

/-- Opens the file at a path, read in the directory `dir`. -/
def open? (files : Files) (dir path : String) : Except OpenFault String :=
  if path.utf8ByteSize > pathLimit then .error .tooLong
  else
    let start := if path.toList.head? = some '/' then [""] else (Path.parts dir).reverse
    follow files files.isDirectory start (Path.parts path)

/-- Why there is no file at a path that starts from the top. -/
def faultAt (files : Files) (isDir : String → Bool) (path : String) : OpenFault :=
  if path.utf8ByteSize > pathLimit then .tooLong
  else
    let start := if path.toList.head? = some '/' then [""] else []
    match follow files isDir start (Path.parts path) with
    | .ok _ => .missing
    | .error f => f

/-- A part that is too long cannot be looked up in a directory. -/
theorem faultAt_of_long {files : Files} {isDir : String → Bool} {dir name : String}
    (hroot : dir.toList.head? = some '/') (hdir : files.faultAt isDir dir = .directory)
    (hname : '/' ∉ name.toList) (hlong : partLimit < name.utf8ByteSize) :
    files.faultAt isDir (dir ++ "/" ++ name) = .tooLong := by
  have hroot' : (dir ++ "/" ++ name).toList.head? = some '/' := by simp [hroot]
  have hfollow : follow files isDir [""] (Path.parts dir) = .error .directory := by
    rw [faultAt, if_pos hroot] at hdir
    split at hdir
    · cases hdir
    · dsimp only at hdir
      split at hdir
      · cases hdir
      · exact hdir ▸ by assumption
  rw [faultAt, if_pos hroot']
  split
  · rfl
  · dsimp only
    rw [Path.parts_append, Path.parts_of_not_mem hname, follow_append_of_long hlong hfollow]

end Files

/-- What comes of looking for a path at which no file can be read. -/
inductive Absence where
  /-- There is nothing at the path. -/
  | nothing
  /-- There is something at the path, but opening it fails. -/
  | closed (cause : OpenFault)
  /-- Looking for the path breaks off. -/
  | broken (cause : OpenFault)

/-- How a path is found absent at which a fault keeps a file from being opened. -/
def OpenFault.absence : OpenFault → Absence
  | .missing | .throughFile => .nothing
  | .directory => .closed .directory
  | f => .broken f

theorem OpenFault.eq_directory_of_absence {f : OpenFault} (h : f.absence = .closed .directory) :
    f = .directory := by
  cases f <;> first | rfl | cases h

/-- The files that can be read, and what the operating system makes of other paths. -/
structure FileSystem where
  /-- The files that can be read. -/
  files : Files
  /-- Why a path cannot be resolved, if it cannot. -/
  unresolved? : String → Option OpenFault
  /-- What comes of looking for a path at which no file can be read. -/
  absence : String → Absence

namespace FileSystem

/-- The text of the file at a path. -/
def text? (fs : FileSystem) (path : String) : Option String := fs.files.lookup path

/-- The file system without the files at some paths. All else is as it was. -/
def without (fs : FileSystem) (paths : List String) : FileSystem :=
  { fs with files := fs.files.filter fun f => !paths.contains f.1 }

/-- The file system in which there is nothing but some files, the directories that they lie in, and
further directories. -/
def ofFiles (files : Files) (directories : List String) : FileSystem where
  files := files
  unresolved? path := if path.toList.contains (Char.ofNat 0) then some .nullByte else none
  absence path :=
    (files.faultAt (files ++ directories.map fun d => (d ++ "/", "")).isDirectory path).absence

instance : Coe Files FileSystem := ⟨fun files => ofFiles files []⟩

instance : EmptyCollection FileSystem := ⟨ofFiles [] []⟩

end FileSystem

end RuleProver
