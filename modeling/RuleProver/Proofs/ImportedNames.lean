import RuleProver.Proofs.Imports
import RuleProver.Proofs.KeptNames

/-!
# Names from imported files

Asking for a file succeeds when the file is imported, and also when it has been imported before.
What has been imported is not part of any history: undoing and rolling back take the definitions of
a file back, and the file counts as imported all the same. Asking for it again then succeeds and
brings nothing back.

So after a file of definitions has been asked for with success, each of its definitions has been
carried out at some moment of the run, and its name stands for something exactly if it is kept since
it was given. It is when the file has not been imported before.

## Main definitions

* `RunsIn` — a run in which the files stay the same
* `CarriedOut` — all directives of a file have been carried out with success

## Main results

* `RunsIn.carriedOut` — the directives of imported files have been carried out
* `Prover.available_after_using` — the names that stand for something after a file is asked for
* `Prover.unavailable_after_using` — a name that does not
-/

namespace RuleProver

/-! ## Runs with the same files -/

/-- A run from a prover by lines, by undoing, by marking and by rolling back, with its journal, in
which the files stay the same. -/
inductive RunsIn [HoleOrder] (fs : FileSystem) (P₀ : Prover) : List Event → Prover → Prop
  | start : RunsIn fs P₀ [] P₀
  | line {text : String} {P P' : Prover} {es es' : List Event} {r : Except Fault Answer}
      (h : RunsIn fs P₀ es P) (hline : Carries fs (.line text) P es' P' r) :
      RunsIn fs P₀ (es ++ es') P'
  | undo {P : Prover} {es : List Event} (h : RunsIn fs P₀ es P) :
      RunsIn fs P₀ (es ++ [.undo]) P.undo.2
  | mark {P : Prover} {es : List Event} (h : RunsIn fs P₀ es P) (name : String) :
      RunsIn fs P₀ (es ++ [.mark name]) (P.mark name)
  | rollback {P : Prover} {es : List Event} (h : RunsIn fs P₀ es P) (name : String) :
      RunsIn fs P₀ (es ++ [.rollback name]) (P.rollback name).2

theorem RunsIn.runs [HoleOrder] {fs : FileSystem} {P₀ P : Prover} {es : List Event}
    (h : RunsIn fs P₀ es P) : Runs P₀ es P := by
  induction h with
  | start => exact .start
  | line _ hline ih => exact ih.line hline
  | undo _ ih => exact ih.undo
  | mark _ name ih => exact ih.mark name
  | rollback _ name ih => exact ih.rollback name

/-! ## Directives of imported files -/

open Prover in
/-- All directives of the file at a path have been carried out with success. -/
def CarriedOut (fs : FileSystem) (path : String) (es : List Event) : Prop :=
  ∀ text, fs.text? path = some text → ∀ line ∈ directiveLines text, ∀ d,
    Directive.parse line = .ok (some d) → d.name ≠ "Using" → .direct d .succeeded ∈ es

theorem CarriedOut.mono {fs : FileSystem} {path : String} {es es' : List Event}
    (h : CarriedOut fs path es) (hes : es ⊆ es') : CarriedOut fs path es' :=
  fun text htext line hline d hparse hd => hes (h text htext line hline d hparse hd)

namespace Carries

open Prover

variable {fs : FileSystem} {task : Task} {P P' : Prover} {es : List Event} {r : Except Fault Answer}
  {line name : String} {a : Answer} {d : Directive} [HoleOrder]

/-- Carrying out lines takes nothing back. -/
theorem not_takesBack (h : Carries fs task P es P' r) : ∀ e ∈ es, ¬ e.TakesBack := by
  induction h with
  | unreadable | idle | unnamed | nameless | unresolved | again | circular | missing | noMore =>
    exact nofun
  | direct => exact List.forall_mem_singleton.mpr id
  | imports _ _ _ ih | stop _ _ ih | fault _ ih => exact ih
  | completed _ _ _ ih =>
    refine List.forall_mem_append.mpr ⟨List.forall_mem_cons.mpr ⟨id, ih⟩, ?_⟩
    exact List.forall_mem_cons.mpr ⟨id, List.forall_mem_singleton.mpr id⟩
  | refused _ _ _ ih | interrupted _ _ ih =>
    exact List.forall_mem_append.mpr
      ⟨List.forall_mem_cons.mpr ⟨id, ih⟩, List.forall_mem_singleton.mpr id⟩
  | next _ _ _ ih ih' => exact List.forall_mem_append.mpr ⟨ih, ih'⟩

theorem of_direct (h : Carries fs (.line line) P es P' r)
    (hparse : Directive.parse line = .ok (some d)) (hd : d.name ≠ "Using") :
    es = [.direct d (.of r)] := by
  cases h with
  | unreadable h | idle h => cases hparse.symm.trans h
  | direct h =>
    cases hparse.symm.trans h
    rfl
  | unnamed h | nameless h | imports h =>
    cases hparse.symm.trans h
    exact absurd rfl hd

/-- When lines have been carried out to the end, every directive in them has succeeded. -/
theorem mem_of_lines {lines : List String} (h : Carries fs (.lines lines) P es P' (.ok a))
    (ha : a.success = true) (hline : line ∈ lines) (hparse : Directive.parse line = .ok (some d))
    (hd : d.name ≠ "Using") : .direct d .succeeded ∈ es := by
  induction lines generalizing P es with
  | nil => cases hline
  | cons first lines ih =>
    cases h with
    | @next _ _ _ _ _ _ _ answer _ hfirst hanswer hlines =>
      rcases List.mem_cons.mp hline with rfl | hline
      · have hending : Ending.of (.ok answer) = .succeeded := if_pos hanswer
        rw [hfirst.of_direct hparse hd, hending]
        exact List.mem_append_left _ List.mem_cons_self
      · exact List.mem_append_right _ (ih hlines hline)
    | stop _ hfailed =>
      rw [ha] at hfailed
      cases hfailed

/-- A file that is imported, and was not before, has been carried out in between. -/
theorem carriedOut (h : Carries fs task P es P' r) {path : String} (hpath : path ∈ P'.imported) :
    path ∈ P.imported ∨ CarriedOut fs path es := by
  induction h with
  | unreadable | idle | direct | unnamed | nameless | unresolved | again | circular | missing
  | noMore =>
    exact .inl hpath
  | imports _ _ _ ih | stop _ _ ih | fault _ ih => exact ih hpath
  | completed hopens hlines ha ih =>
    rcases List.mem_append.mp hpath with hpath | hpath
    · exact (ih hpath).imp_right fun h =>
        h.mono fun e he => List.mem_append_left _ (List.mem_cons_of_mem _ he)
    · rw [List.mem_singleton.mp hpath]
      refine .inr fun text htext line hline d hparse hd => ?_
      cases hopens.text.symm.trans htext
      exact List.mem_append_left _
        (List.mem_cons_of_mem _ (hlines.mem_of_lines ha hline hparse hd))
  | refused _ _ _ ih | interrupted _ _ ih =>
    exact (ih hpath).imp_right fun h =>
      h.mono fun e he => List.mem_append_left _ (List.mem_cons_of_mem _ he)
  | next _ _ _ ih ih' =>
    rcases ih' hpath with hpath | h
    · exact (ih hpath).imp_right fun h => h.mono (List.subset_append_left _ _)
    · exact .inr (h.mono (List.subset_append_right _ _))

end Carries

/-- **The directives of imported files have been carried out.** -/
theorem RunsIn.carriedOut [HoleOrder] {fs : FileSystem} {base : String} {es : List Event}
    {P : Prover} (h : RunsIn fs (.initial base) es P) {path : String} (hpath : path ∈ P.imported) :
    CarriedOut fs path es := by
  induction h with
  | start => cases hpath
  | line _ hline ih =>
    rcases hline.carriedOut hpath with hpath | h
    · exact (ih hpath).mono (List.subset_append_left _ _)
    · exact h.mono (List.subset_append_right _ _)
  | undo _ ih | mark _ _ ih | rollback _ _ ih => exact (ih hpath).mono (List.subset_append_left _ _)

/-! ## Asking for a file -/

namespace Prover

variable {P P' : Prover} {fs : FileSystem} {es : List Event} {line name n : String} {a : Answer}
  {t : Object}

theorem exists_of_importedName? (h : importedName? line = some name) :
    ∃ t ts, Directive.parse line = .ok (some ⟨"Using", t :: ts⟩) ∧ t.handle = some name := by
  rw [importedName?] at h
  split at h
  · exact ⟨_, _, ‹_›, h⟩
  · cases h

theorem success_of_noFile {path : String} {absence : Absence} (h : noFile path absence = .ok a) :
    a.success = false := by
  cases absence with
  | nothing | closed =>
    cases h
    rfl
  | broken => cases h

/-- Asking for a file succeeds when it has been imported before or is imported now. -/
theorem imported_of_using [HoleOrder] (h : Carries fs (.line line) P es P' (.ok a))
    (ha : a.success = true) (hname : importedName? line = some name) :
    P.pathOf name ∈ P'.imported ∧ (P.pathOf name ∈ P.imported → es = []) := by
  obtain ⟨t, ts, hparse, ht⟩ := exists_of_importedName? hname
  have hfile : Carries fs (.file name) P es P' (.ok a) := by
    generalize hr : Except.ok a = r at h
    cases h with
    | unreadable h | idle h | unnamed h => cases hparse.symm.trans h
    | direct h hd =>
      cases hparse.symm.trans h
      exact absurd rfl hd
    | nameless h => cases hr
    | imports h ht' hfile =>
      cases hparse.symm.trans h
      cases ht.symm.trans ht'
      exact hr ▸ hfile
  generalize hr : Except.ok a = r at hfile
  cases hfile with
  | unresolved => cases hr
  | again _ hpath => exact ⟨hpath, fun _ => rfl⟩
  | circular | interrupted =>
    cases hr
    cases ha
  | missing =>
    rw [success_of_noFile hr.symm] at ha
    cases ha
  | completed hopens =>
    exact ⟨List.mem_append_right _ List.mem_cons_self, fun hpath => absurd hpath hopens.new⟩
  | refused _ _ hfailed =>
    cases hr
    rw [ha] at hfailed
    cases hfailed

/-- A name that has been defined is kept as long as nothing is taken back. -/
theorem keeps_of_define [HoleOrder] {before after : List Event} (hP : P.session.Intact)
    (hproper : P.Proper (before ++ .direct ⟨"Define", [.const n, t]⟩ .succeeded :: after))
    (hn : Text.isNumeral n = false) (hafter : ∀ e ∈ after, ¬ e.TakesBack) :
    P.Keeps (before ++ .direct ⟨"Define", [.const n, t]⟩ .succeeded :: after) n := by
  obtain ⟨-, hsucceeded, -⟩ := proper_append.mp hproper
  have hintact := intact_replay hP before
  have hgives : (P.replay before).Gives (.direct ⟨"Define", [.const n, t]⟩ .succeeded) n := by
    rcases Session.aliases_process_define hintact.order hn default t with
      ⟨f, hprocess⟩ | ⟨u, -, haliases⟩
    · have hdirect : ((P.replay before).direct ⟨"Define", [.const n, t]⟩).2 = .error f :=
        congrArg Prod.snd hprocess
      rw [Permits, hdirect] at hsucceeded
      cases hsucceeded
    · exact ⟨u, haliases⟩
  refine ⟨before, _, after, rfl, hgives, fun later hlater => ?_⟩
  rw [List.append_cons before _ later, P.replay_append (before ++ [_])]
  exact height_le_replay (intact_replay hP _) fun e he => hafter e (hlater.subset he)

/-- **The names that stand for something after a file of definitions is asked for.** In a run in
which the file system stays the same, a file that holds only definitions is asked for with success.
Then all its definitions have been carried out with success at some moment. Their names stand for
something exactly if they are kept since they were given, and they do if the file has not been
imported before. Otherwise nothing has been done. -/
theorem available_after_using [HoleOrder] {base text : String}
    (hrun : RunsIn fs (initial base) es P)
    (hname : importedName? line = some name) (htext : fs.text? (P.pathOf name) = some text)
    (hdefines : ∀ l ∈ directiveLines text, ∃ n t,
      Directive.parse l = .ok (some ⟨"Define", [.const n, t]⟩) ∧ Text.isNumeral n = false)
    (h : process fs line P = (P', .ok a)) (ha : a.success = true) :
    ∃ es', RunsIn fs (initial base) (es ++ es') P' ∧
      (P.pathOf name ∈ P.imported → es' = []) ∧
      ∀ l ∈ directiveLines text, ∀ n t,
        Directive.parse l = .ok (some ⟨"Define", [.const n, t]⟩) →
          .direct ⟨"Define", [.const n, t]⟩ .succeeded ∈ es ++ es' ∧
          (P.pathOf name ∉ P.imported → (P'.session.aliases.current.get? n).isSome = true) ∧
          ((P'.session.aliases.current.get? n).isSome = true ↔
            (initial base).Keeps (es ++ es') n) := by
  obtain ⟨es', hcarries⟩ := carries_iff_run.mpr (show Task.run fs P (.line line) = _ from h)
  obtain ⟨himported, hagain⟩ := imported_of_using hcarries ha hname
  have hrun' := hrun.line hcarries
  refine ⟨es', hrun', hagain, fun l hl n t hparse => ?_⟩
  have hn : Text.isNumeral n = false := by
    obtain ⟨n', t', hparse', hn⟩ := hdefines l hl
    cases hparse.symm.trans hparse'
    exact hn
  have hkeeps := isSome_get?_iff_keeps base (es ++ es') n
  rw [hrun'.runs.replay_eq] at hkeeps
  refine ⟨hrun'.carriedOut himported text htext l hl _ hparse (by simp), fun hnew => ?_, hkeeps⟩
  have hmem := (hcarries.carriedOut himported).resolve_left hnew text htext l hl _ hparse (by simp)
  obtain ⟨before, after, rfl⟩ := List.append_of_mem hmem
  rw [hkeeps, ← List.append_assoc]
  refine keeps_of_define Session.intact_initial ?_ hn fun e he => ?_
  · rw [List.append_assoc]
    exact hrun'.runs.proper
  · exact hcarries.not_takesBack e (List.mem_append_right _ (List.mem_cons_of_mem _ he))

/-! ### A file that is asked for twice -/

/-- A file with one definition. -/
def definitions : Files := [("/f.end", "Define a, b")]

/-- A new prover whose first moment is marked. -/
def marked : Prover := (initial "").mark "p"

/-- What happens when the file is imported. -/
def definitionsJournal : List Event :=
  [.enter "/f.end", .direct ⟨"Define", [.const "a", .const "b"]⟩ .succeeded, .finish "/f.end",
    .mark "import:f"]

theorem parse_define : Directive.parse "Define a, b" =
    .ok (some ⟨"Define", [.const "a", .const "b"]⟩) :=
  Directive.parse_of_readAll
    [⟨.symbol, "Define", 0⟩, ⟨.symbol, "a", 7⟩, ⟨.comma, ",", 8⟩, ⟨.symbol, "b", 10⟩]
    (by cbv) (by cbv) (by cbv)

theorem directiveLines_define : directiveLines "Define a, b" = ["Define a, b"] := rfl

theorem importedName?_using_f : importedName? "Using f" = some "f" := by
  rw [importedName?, parse_using_f]
  rfl

theorem carries_definitions : Carries definitions (.line "Using f") marked definitionsJournal
    (marked.replay definitionsJournal) (.ok (.done (.notice "Import" "Imported: f"))) := by
  have hpath : marked.pathOf "f" = "/f.end" := rfl
  have hopens : marked.Opens definitions "f" "Define a, b" :=
    ⟨rfl, nofun, nofun, hpath ▸ rfl⟩
  have hcarried : Carries definitions (.lines ["Define a, b"]) (marked.enter "/f.end") _ _ _ :=
    .next (.direct parse_define (by decide)) rfl .noMore
  rw [← directiveLines_define, ← hpath] at hcarried
  have hfile := Carries.completed hopens hcarried rfl
  rw [hpath] at hfile
  exact .imports parse_using_f rfl hfile

/-- The first time, the name stands for something. -/
theorem available_after_first_using :
    ∃ P' a, process definitions "Using f" marked = (P', .ok a) ∧ a.success = true ∧
      (P'.session.aliases.current.get? "a").isSome = true := by
  have hrun : RunsIn definitions (initial "") [.mark "p"] marked := RunsIn.start.mark "p"
  have hprocess : process definitions "Using f" marked = (_, _) := carries_definitions.run_eq
  have hdefines : ∀ l ∈ directiveLines "Define a, b", ∃ n t,
      Directive.parse l = .ok (some ⟨"Define", [.const n, t]⟩) ∧ Text.isNumeral n = false := by
    rw [directiveLines_define, List.forall_mem_singleton]
    exact ⟨"a", .const "b", parse_define, by decide⟩
  obtain ⟨es', -, -, hnames⟩ :=
    available_after_using hrun importedName?_using_f rfl hdefines hprocess rfl
  have hmem : "Define a, b" ∈ directiveLines "Define a, b" :=
    directiveLines_define ▸ List.mem_cons_self
  obtain ⟨-, hnew, -⟩ := hnames _ hmem _ _ parse_define
  exact ⟨_, _, hprocess, rfl, hnew nofun⟩

/-- After rolling back, asking for the file again succeeds, and the name stands for nothing. -/
theorem unavailable_after_using :
    ∃ es P P' a, RunsIn definitions (initial "") es P ∧ importedName? "Using f" = some "f" ∧
      FileSystem.text? definitions (P.pathOf "f") = some "Define a, b" ∧
      process definitions "Using f" P = (P', .ok a) ∧ a.success = true ∧
      P'.session.aliases.current.get? "a" = none := by
  have hrun : RunsIn definitions (initial "") [.mark "p"] marked := RunsIn.start.mark "p"
  have hback := (hrun.line carries_definitions).rollback "p"
  have hagain : Carries definitions (.line "Using f") _ [] _ _ := .imports parse_using_f rfl
    (.again (P := ((marked.replay definitionsJournal).rollback "p").2) rfl (by decide))
  exact ⟨_, _, _, _, hback, importedName?_using_f, rfl, hagain.run_eq, rfl, rfl⟩

end Prover

end RuleProver
