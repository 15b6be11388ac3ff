import RuleProver.Proofs.Reachable

/-!
# Journals

Whatever a prover does consists of a few kinds of events: a directive is carried out, one is undone,
a moment is marked or returned to, and the import of a file begins, is given up or is completed. The
journal of a run lists its events in order, and replaying them leads to the same state
(`Runs.replay_eq`).

Carrying out a line, importing a file and carrying out the lines of a file call each other.
`Carries` describes the three together with their journals. It looks files up among all files that
there are, so nothing in the description gets smaller from call to call. That there is an end all
the same (`Task.ends`) is because the files that are being imported are never entered again, so
that those which are not become fewer. `carries_iff_run` says that the description and the prover
agree.

## Main definitions

* `Event`, `Prover.replay` — what can happen to a prover, and what a journal leads to
* `Carries` — lines, files and the lines of a file, with their journals
* `Prover.Proper` — every event of a journal may happen at its moment
* `Runs` — lines, undoing, marking and rolling back in any order, with their journal

## Main results

* `carries_iff_run` — carrying out ends, and ends as the prover says
* `Carries.importing_eq` — the files that are being imported are the same before and after
* `Runs.proper`, `Runs.replay_eq` — what the journal of a run is
* `Prover.reachable_iff_runs` — the reachable states are those that a run leads to
-/

namespace RuleProver

/-! ## Events -/

/-- How carrying out a directive, a line or a file ends. -/
inductive Ending where
  | succeeded
  | failed
  | brokenOff
deriving DecidableEq

/-- How an answer says that something has ended. -/
def Ending.of : Except Fault Answer → Ending
  | .ok a => if a.success then .succeeded else .failed
  | .error _ => .brokenOff

/-- What can happen to a prover. -/
inductive Event where
  /-- A directive is carried out in the session, and ends in some way. -/
  | direct (d : Directive) (ending : Ending)
  /-- The last directive is undone. -/
  | undo
  /-- The moment is marked with a name. -/
  | mark (name : String)
  /-- A marked moment is returned to. -/
  | rollback (name : String)
  /-- The import of the file at a path begins. -/
  | enter (path : String)
  /-- The innermost import is given up. -/
  | leave
  /-- The innermost import, of the file at a path, is completed. -/
  | finish (path : String)

namespace Prover

variable [HoleOrder]

/-- What an event makes of a prover. -/
def onEvent (P : Prover) : Event → Prover
  | .direct d _ => (P.direct d).1
  | .undo => P.undo.2
  | .mark name => P.mark name
  | .rollback name => (P.rollback name).2
  | .enter path => P.enter path
  | .leave => P.leave
  | .finish path => { P.leave with imported := P.imported ++ [path] }

/-- What a journal makes of a prover. -/
def replay (P : Prover) (es : List Event) : Prover := es.foldl onEvent P

theorem replay_append (P : Prover) (es es' : List Event) :
    P.replay (es ++ es') = (P.replay es).replay es' :=
  List.foldl_append

/-- An event may happen: a directive ends as it does, an import begins only for a file that is
neither imported nor being imported, and the innermost import is the one that is completed. -/
def Permits (P : Prover) : Event → Prop
  | .direct d ending => Ending.of (P.direct d).2 = ending
  | .enter path => path ∉ P.imported ∧ path ∉ P.importing
  | .finish path => P.importing.getLast? = some path
  | _ => True

/-- Every event of a journal may happen at its moment. -/
def Proper (P : Prover) : List Event → Prop
  | [] => True
  | e :: es => P.Permits e ∧ (P.onEvent e).Proper es

theorem proper_append {P : Prover} {es es' : List Event} :
    P.Proper (es ++ es') ↔ P.Proper es ∧ (P.replay es).Proper es' := by
  induction es generalizing P with
  | nil => exact (and_iff_right trivial).symm
  | cons e es ih => exact (and_congr_right fun _ => ih).trans and_assoc.symm

/-- Every event keeps the session intact, whether or not it may happen. -/
theorem intact_onEvent {P : Prover} (hP : P.session.Intact) (e : Event) :
    (P.onEvent e).session.Intact := by
  cases e with
  | direct d => exact (Session.processed hP.order d).intact hP
  | undo => exact hP.undo
  | mark name => exact hP.mark name
  | rollback name => exact hP.rollback name
  | enter | leave | finish => exact hP

theorem intact_replay {P : Prover} (hP : P.session.Intact) (es : List Event) :
    (P.replay es).session.Intact := by
  induction es generalizing P with
  | nil => exact hP
  | cons e es ih => exact ih (intact_onEvent hP e)

/-- The file with a name is there to be imported: its path can be resolved, it is neither imported
nor being imported, and it has this text. -/
structure Opens (P : Prover) (fs : FileSystem) (name text : String) : Prop where
  resolved : fs.unresolved? (P.pathOf name) = none
  new : P.pathOf name ∉ P.imported
  closed : P.pathOf name ∉ P.importing
  text : fs.text? (P.pathOf name) = some text

/-- The file system without the files that are being imported. -/
def available (P : Prover) (fs : FileSystem) : FileSystem := fs.without P.importing

end Prover

/-! ## Lines, files and the lines of a file -/

/-- What a prover can be asked to carry out. -/
inductive Task where
  | line (line : String)
  | file (name : String)
  | lines (lines : List String)

open Prover in
/-- How a task is carried out: from which state and with which journal to which state and answer. -/
inductive Carries [HoleOrder] (fs : FileSystem) :
    Task → Prover → List Event → Prover → Except Fault Answer → Prop
  | unreadable {line : String} {P : Prover} {e : ParseError}
      (h : Directive.parse line = .error e) :
      Carries fs (.line line) P [] P (.error (.unreadable e))
  | idle {line : String} {P : Prover} (h : Directive.parse line = .ok none) :
      Carries fs (.line line) P [] P (.ok ⟨true, []⟩)
  | direct {line : String} {P : Prover} {d : Directive}
      (h : Directive.parse line = .ok (some d)) (hd : d.name ≠ "Using") :
      Carries fs (.line line) P [.direct d (.of (P.direct d).2)] (P.direct d).1 (P.direct d).2
  | unnamed {line : String} {P : Prover} (h : Directive.parse line = .ok (some ⟨"Using", []⟩)) :
      Carries fs (.line line) P [] P (.ok (.failed (.error "Using requires filename")))
  | nameless {line : String} {P : Prover} {t : Object} {ts : List Object}
      (h : Directive.parse line = .ok (some ⟨"Using", t :: ts⟩)) (ht : t.handle = none) :
      Carries fs (.line line) P [] P (.error .noFileName)
  | imports {line name : String} {P P' : Prover} {t : Object} {ts : List Object}
      {es : List Event} {r : Except Fault Answer}
      (h : Directive.parse line = .ok (some ⟨"Using", t :: ts⟩)) (ht : t.handle = some name)
      (hfile : Carries fs (.file name) P es P' r) : Carries fs (.line line) P es P' r
  | unresolved {name : String} {P : Prover} {cause : OpenFault}
      (h : fs.unresolved? (P.pathOf name) = some cause) :
      Carries fs (.file name) P [] P (.error (.unopened cause (P.pathOf name)))
  | again {name : String} {P : Prover} (hresolved : fs.unresolved? (P.pathOf name) = none)
      (h : P.pathOf name ∈ P.imported) :
      Carries fs (.file name) P [] P
        (.ok (.done (.notice "Import" ("Already imported: " ++ name))))
  | circular {name : String} {P : Prover} (hresolved : fs.unresolved? (P.pathOf name) = none)
      (hnew : P.pathOf name ∉ P.imported) (h : P.pathOf name ∈ P.importing) :
      Carries fs (.file name) P [] P (.ok (.failed (.error ("Circular import: " ++ name))))
  | missing {name : String} {P : Prover} (hresolved : fs.unresolved? (P.pathOf name) = none)
      (hnew : P.pathOf name ∉ P.imported) (hclosed : P.pathOf name ∉ P.importing)
      (h : fs.text? (P.pathOf name) = none) :
      Carries fs (.file name) P [] P (noFile (P.pathOf name) (fs.absence (P.pathOf name)))
  | completed {name text : String} {P P' : Prover} {es : List Event} {a : Answer}
      (h : P.Opens fs name text)
      (hlines : Carries fs (.lines (directiveLines text)) (P.enter (P.pathOf name)) es P' (.ok a))
      (ha : a.success = true) :
      Carries fs (.file name) P
        (.enter (P.pathOf name) :: es ++ [.finish (P.pathOf name), .mark ("import:" ++ name)])
        (P'.complete name (P.pathOf name))
        (.ok (.done (.notice "Import" ("Imported: " ++ name))))
  | refused {name text : String} {P P' : Prover} {es : List Event} {a : Answer}
      (h : P.Opens fs name text)
      (hlines : Carries fs (.lines (directiveLines text)) (P.enter (P.pathOf name)) es P' (.ok a))
      (ha : a.success = false) :
      Carries fs (.file name) P (.enter (P.pathOf name) :: es ++ [.leave]) P'.leave (.ok a)
  | interrupted {name text : String} {P P' : Prover} {es : List Event} {f : Fault}
      (h : P.Opens fs name text)
      (hlines :
        Carries fs (.lines (directiveLines text)) (P.enter (P.pathOf name)) es P' (.error f)) :
      Carries fs (.file name) P (.enter (P.pathOf name) :: es ++ [.leave]) P'.leave
        (.ok (.failed (.error ("Import error: " ++ f.message))))
  | noMore {P : Prover} : Carries fs (.lines []) P [] P (.ok ⟨true, []⟩)
  | next {line : String} {lines : List String} {P P₁ P₂ : Prover} {es es' : List Event}
      {a : Answer} {r : Except Fault Answer} (hline : Carries fs (.line line) P es P₁ (.ok a))
      (ha : a.success = true) (hlines : Carries fs (.lines lines) P₁ es' P₂ r) :
      Carries fs (.lines (line :: lines)) P (es ++ es') P₂ r
  | stop {line : String} {lines : List String} {P P₁ : Prover} {es : List Event} {a : Answer}
      (hline : Carries fs (.line line) P es P₁ (.ok a)) (ha : a.success = false) :
      Carries fs (.lines (line :: lines)) P es P₁ (.ok a)
  | fault {line : String} {lines : List String} {P P₁ : Prover} {es : List Event} {f : Fault}
      (hline : Carries fs (.line line) P es P₁ (.error f)) :
      Carries fs (.lines (line :: lines)) P es P₁ (.error f)

namespace Carries

variable {fs : FileSystem} {task : Task} {P P' : Prover} {es : List Event} {r : Except Fault Answer}
  [HoleOrder]

/-- **The files that are being imported are the same before and after a task.** -/
theorem importing_eq (h : Carries fs task P es P' r) : P'.importing = P.importing := by
  induction h with
  | unreadable | idle | direct | unnamed | nameless | unresolved => rfl
  | again | circular | missing | noMore => rfl
  | imports _ _ _ ih => exact ih
  | completed _ _ _ ih | refused _ _ _ ih | interrupted _ _ ih =>
    -- what has been entered is left again
    exact (congrArg List.dropLast ih).trans List.dropLast_concat
  | next _ _ _ ih ih' => exact ih'.trans ih
  | stop _ _ ih | fault _ ih => exact ih

/-- Replaying the journal of a task leads to the state after it. -/
theorem replay_eq (h : Carries fs task P es P' r) : P.replay es = P' := by
  induction h with
  | unreadable | idle | direct | unnamed | nameless | unresolved => rfl
  | again | circular | missing | noMore => rfl
  | imports _ _ _ ih => exact ih
  | completed _ _ _ ih | refused _ _ _ ih | interrupted _ _ ih =>
    rw [Prover.replay_append]
    exact congrArg (Prover.replay · _) ih
  | next _ _ _ ih ih' => rw [Prover.replay_append, ih, ih']
  | stop _ _ ih | fault _ ih => exact ih

/-- The journal of a task has only events that may happen. -/
theorem proper (h : Carries fs task P es P' r) : P.Proper es := by
  induction h with
  | unreadable | idle | unnamed | nameless | unresolved => trivial
  | again | circular | missing | noMore => trivial
  | direct => exact ⟨rfl, trivial⟩
  | imports _ _ _ ih => exact ih
  | @completed name _ P P' es _ hopens hlines _ ih =>
    have hlast : P'.importing.getLast? = some (P.pathOf name) := by
      rw [hlines.importing_eq]
      exact List.getLast?_concat
    refine Prover.proper_append.mpr ⟨⟨⟨hopens.new, hopens.closed⟩, ih⟩, ?_, trivial, trivial⟩
    rw [show P.replay (.enter (P.pathOf name) :: es) = P' from hlines.replay_eq]
    exact hlast
  | refused hopens _ _ ih | interrupted hopens _ ih =>
    exact Prover.proper_append.mpr ⟨⟨⟨hopens.new, hopens.closed⟩, ih⟩, trivial, trivial⟩
  | next hline _ _ ih ih' =>
    refine Prover.proper_append.mpr ⟨ih, ?_⟩
    rw [hline.replay_eq]
    exact ih'
  | stop _ _ ih | fault _ ih => exact ih

end Carries

/-! ## The prover carries tasks out -/

namespace Prover

variable {P P' : Prover} {fs : FileSystem} {path : String}

theorem unresolved?_available (P : Prover) (fs : FileSystem) (path : String) :
    (P.available fs).unresolved? path = fs.unresolved? path :=
  rfl

theorem text?_available (h : path ∉ P.importing) :
    (P.available fs).text? path = fs.text? path := by
  rw [available, FileSystem.text?, FileSystem.without,
    lookup_filter fun p => !P.importing.contains p, if_pos (by simpa using h), FileSystem.text?]

/-- Once a file is entered, one file less can be imported. -/
theorem available_enter (P : Prover) (fs : FileSystem) (path : String) :
    (P.enter path).available fs = (P.available fs).without [path] := by
  simp only [available, enter, FileSystem.without, List.filter_filter, FileSystem.mk.injEq,
    and_true]
  refine List.filter_congr fun f _ => ?_
  rw [Bool.eq_iff_iff]
  simp [and_comm]

theorem length_available_enter_lt {name text : String} (h : P.Opens fs name text) :
    ((P.enter (P.pathOf name)).available fs).files.length < (P.available fs).files.length := by
  rw [available_enter]
  exact length_without_lt ((text?_available h.closed).trans h.text)

theorem available_congr (h : P'.importing = P.importing) :
    P'.available fs = P.available fs := by
  rw [available, available, h]

/-- What carrying out lines answers. -/
def linesAnswer : Except Fault (Option (List Result)) → Except Fault Answer
  | .ok none => .ok ⟨true, []⟩
  | .ok (some results) => .ok ⟨false, results⟩
  | .error f => .error f

theorem linesAnswer_eq_succeeded {r : Except Fault (Option (List Result))} {a : Answer}
    (h : linesAnswer r = .ok a) (ha : a.success = true) : r = .ok none := by
  rcases r with f | _ | results
  · cases h
  · rfl
  · cases h
    cases ha

theorem linesAnswer_eq_failed {r : Except Fault (Option (List Result))} {a : Answer}
    (h : linesAnswer r = .ok a) (ha : a.success = false) : r = .ok (some a.results) := by
  rcases r with f | _ | results
  · cases h
  · cases h
    cases ha
  · cases h
    rfl

theorem linesAnswer_eq_error {r : Except Fault (Option (List Result))} {f : Fault}
    (h : linesAnswer r = .error f) : r = .error f := by
  rcases r with f | _ | results
  · cases h
    rfl
  · cases h
  · cases h

/-- How an import ends after the lines of its file. -/
def endImport (name path : String) :
    Prover × Except Fault (Option (List Result)) → Prover × Except Fault Answer
  | (P, .ok none) => (P.complete name path, .ok (.done (.notice "Import" ("Imported: " ++ name))))
  | (P, .ok (some results)) => (P.leave, .ok ⟨false, results⟩)
  | (P, .error f) => (P.leave, .ok (.failed (.error ("Import error: " ++ f.message))))

theorem importFile_of_opens [HoleOrder] {name text : String} (h : P.Opens fs name text) :
    importFile (P.available fs) name P = endImport name (P.pathOf name)
      (runLines ((P.enter (P.pathOf name)).available fs) (directiveLines text)
        (P.enter (P.pathOf name))) := by
  rw [importFile, unresolved?_available, h.resolved]
  dsimp only
  rw [if_neg (by simpa using h.new), if_neg (by simpa using h.closed)]
  split
  · rename_i htext
    rw [text?_available h.closed, h.text] at htext
    cases htext
  · rename_i text' htext
    rw [text?_available h.closed, h.text] at htext
    cases htext
    rw [available_enter]
    rfl

end Prover

variable [HoleOrder]

/-- What the prover makes of a task. -/
def Task.run (fs : FileSystem) (P : Prover) : Task → Prover × Except Fault Answer
  | .line text => Prover.runLine (P.available fs) text P
  | .file name => Prover.importFile (P.available fs) name P
  | .lines texts =>
    let (P', r) := Prover.runLines (P.available fs) texts P
    (P', Prover.linesAnswer r)

theorem Task.run_lines_eq {fs : FileSystem} {lines : List String} {P P' : Prover}
    {a : Except Fault Answer} :
    Task.run fs P (.lines lines) = (P', a) ↔ ∃ r,
      Prover.runLines (P.available fs) lines P = (P', r) ∧ Prover.linesAnswer r = a := by
  rw [Task.run]
  constructor
  · intro h
    cases h
    exact ⟨_, rfl, rfl⟩
  · rintro ⟨r, hlines, rfl⟩
    rw [hlines]

namespace Carries

variable {fs : FileSystem} {task : Task} {P P' : Prover} {es : List Event} {r : Except Fault Answer}

/-- A task that is carried out ends as the prover says. -/
theorem run_eq (h : Carries fs task P es P' r) : task.run fs P = (P', r) := by
  induction h with
  | unreadable h | idle h => rw [Task.run, Prover.runLine, h]
  | unnamed h =>
    rw [Task.run, Prover.runLine, h]
    exact if_pos rfl
  | direct h hd =>
    rw [Task.run, Prover.runLine, h]
    exact if_neg hd
  | nameless h ht =>
    rw [Task.run, Prover.runLine, h]
    dsimp only
    rw [if_pos rfl, ht]
  | imports h ht _ ih =>
    rw [Task.run, Prover.runLine, h]
    dsimp only
    rw [if_pos rfl, ht]
    exact ih
  | unresolved h => rw [Task.run, Prover.importFile, Prover.unresolved?_available, h]
  | again hresolved h =>
    rw [Task.run, Prover.importFile, Prover.unresolved?_available, hresolved]
    exact if_pos (List.contains_iff_mem.mpr h)
  | circular hresolved hnew h =>
    rw [Task.run, Prover.importFile, Prover.unresolved?_available, hresolved]
    dsimp only
    rw [if_neg (by simpa using hnew)]
    exact if_pos (List.contains_iff_mem.mpr h)
  | missing hresolved hnew hclosed h =>
    rw [Task.run, Prover.importFile, Prover.unresolved?_available, hresolved]
    dsimp only
    rw [if_neg (by simpa using hnew), if_neg (by simpa using hclosed)]
    split
    · rfl
    · rename_i text htext
      rw [Prover.text?_available hclosed, h] at htext
      cases htext
  | @completed name text P P' es a h _ ha ih =>
    obtain ⟨r, hlines, hr⟩ := Task.run_lines_eq.mp ih
    obtain rfl := Prover.linesAnswer_eq_succeeded hr ha
    rw [Task.run, Prover.importFile_of_opens h, hlines]
    rfl
  | @refused name text P P' es a h _ ha ih =>
    obtain ⟨r, hlines, hr⟩ := Task.run_lines_eq.mp ih
    obtain rfl := Prover.linesAnswer_eq_failed hr ha
    rw [Task.run, Prover.importFile_of_opens h, hlines]
    exact congrArg (P'.leave, ·) hr
  | @interrupted name text P P' es f h _ ih =>
    obtain ⟨r, hlines, hr⟩ := Task.run_lines_eq.mp ih
    obtain rfl := Prover.linesAnswer_eq_error hr
    rw [Task.run, Prover.importFile_of_opens h, hlines]
    rfl
  | noMore => rw [Task.run, Prover.runLines]; rfl
  | @next line lines P P₁ P₂ es es' a r hline ha _ ih ih' =>
    rw [Task.run] at ih
    rw [Task.run, Prover.available_congr hline.importing_eq] at ih'
    rw [Task.run, Prover.runLines, ih]
    dsimp only
    rw [if_pos ha]
    exact ih'
  | @stop line lines P P₁ es a _ ha ih =>
    rw [Task.run] at ih
    rw [Task.run, Prover.runLines, ih]
    obtain ⟨success, results⟩ := a
    cases ha
    rfl
  | fault _ ih =>
    rw [Task.run] at ih
    rw [Task.run, Prover.runLines, ih]
    rfl

end Carries

namespace Task

variable {fs : FileSystem} {P : Prover}

/-- A task is carried out in some way. -/
def Ends (fs : FileSystem) (P : Prover) (task : Task) : Prop :=
  ∃ es P' r, Carries fs task P es P' r

theorem ends_line (hfile : ∀ name, Ends fs P (.file name)) (text : String) :
    Ends fs P (.line text) := by
  cases hparse : Directive.parse text with
  | error e => exact ⟨_, _, _, .unreadable hparse⟩
  | ok d? =>
    cases d? with
    | none => exact ⟨_, _, _, .idle hparse⟩
    | some d =>
      by_cases hd : d.name = "Using"
      · obtain ⟨name, args⟩ := d
        cases hd
        cases args with
        | nil => exact ⟨_, _, _, .unnamed hparse⟩
        | cons t ts =>
          cases ht : t.handle with
          | none => exact ⟨_, _, _, .nameless hparse ht⟩
          | some name =>
            obtain ⟨es, P', r, h⟩ := hfile name
            exact ⟨es, P', r, .imports hparse ht h⟩
      · exact ⟨_, _, _, .direct hparse hd⟩

/-- Lines are carried out one by one, and none of them changes which files are being imported. -/
theorem ends_lines (fs : FileSystem) (P : Prover) (texts : List String)
    (hfile : ∀ Q : Prover, Q.importing = P.importing → ∀ name, Ends fs Q (.file name)) :
    Ends fs P (.lines texts) := by
  induction texts generalizing P with
  | nil => exact ⟨_, _, _, .noMore⟩
  | cons text texts ih =>
    obtain ⟨es, P₁, r, hline⟩ := ends_line (hfile P rfl) text
    cases r with
    | error f => exact ⟨_, _, _, .fault hline⟩
    | ok a =>
      cases ha : a.success with
      | false => exact ⟨_, _, _, .stop hline ha⟩
      | true =>
        obtain ⟨es', P₂, r', hlines⟩ :=
          ih P₁ fun Q hQ => hfile Q (hQ.trans hline.importing_eq)
        exact ⟨_, _, _, .next hline ha hlines⟩

/-- **Every import comes to an end**, whatever the files contain: an import of a file, and whatever
it imports in turn, leaves fewer files that can be entered. -/
theorem ends_file (fs : FileSystem) (P : Prover) (name : String) : Ends fs P (.file name) := by
  -- strong induction on the number of files that are not being imported
  induction hn : (P.available fs).files.length using Nat.strongRecOn generalizing P name with
  | ind n ih =>
    cases hresolved : fs.unresolved? (P.pathOf name) with
    | some cause => exact ⟨_, _, _, .unresolved hresolved⟩
    | none =>
      by_cases hnew : P.pathOf name ∈ P.imported
      · exact ⟨_, _, _, .again hresolved hnew⟩
      · by_cases hclosed : P.pathOf name ∈ P.importing
        · exact ⟨_, _, _, .circular hresolved hnew hclosed⟩
        · cases htext : fs.text? (P.pathOf name) with
          | none => exact ⟨_, _, _, .missing hresolved hnew hclosed htext⟩
          | some text =>
            have hopens : P.Opens fs name text := ⟨hresolved, hnew, hclosed, htext⟩
            have hfewer := Prover.length_available_enter_lt hopens
            obtain ⟨es, P', r, hlines⟩ := ends_lines fs (P.enter (P.pathOf name))
              (Prover.directiveLines text) fun Q hQ name' =>
                ih _ (hn ▸ Prover.available_congr hQ ▸ hfewer) Q name' rfl
            cases r with
            | error f => exact ⟨_, _, _, .interrupted hopens hlines⟩
            | ok a =>
              cases ha : a.success with
              | false => exact ⟨_, _, _, .refused hopens hlines ha⟩
              | true => exact ⟨_, _, _, .completed hopens hlines ha⟩

theorem ends (fs : FileSystem) (P : Prover) : (task : Task) → Ends fs P task
  | .line text => ends_line (ends_file fs P) text
  | .file name => ends_file fs P name
  | .lines texts => ends_lines fs P texts fun Q _ => ends_file fs Q

end Task

/-- **Every task is carried out, in the way that the prover says.** -/
theorem carries_iff_run {fs : FileSystem} {task : Task} {P P' : Prover} {r : Except Fault Answer} :
    (∃ es, Carries fs task P es P' r) ↔ task.run fs P = (P', r) := by
  constructor
  · rintro ⟨es, h⟩
    exact h.run_eq
  · intro h
    obtain ⟨es, P₁, r₁, hcarries⟩ := Task.ends fs P task
    have hsame := hcarries.run_eq.symm.trans h
    cases hsame
    exact ⟨es, hcarries⟩

/-! ## Runs -/

/-- A run from a prover by lines, by undoing, by marking and by rolling back, with its journal. The
file system may be another one for every line. -/
inductive Runs (P₀ : Prover) : List Event → Prover → Prop
  | start : Runs P₀ [] P₀
  | line {fs : FileSystem} {text : String} {P P' : Prover} {es es' : List Event}
      {r : Except Fault Answer} (h : Runs P₀ es P)
      (hline : Carries fs (.line text) P es' P' r) : Runs P₀ (es ++ es') P'
  | undo {P : Prover} {es : List Event} (h : Runs P₀ es P) : Runs P₀ (es ++ [.undo]) P.undo.2
  | mark {P : Prover} {es : List Event} (h : Runs P₀ es P) (name : String) :
      Runs P₀ (es ++ [.mark name]) (P.mark name)
  | rollback {P : Prover} {es : List Event} (h : Runs P₀ es P) (name : String) :
      Runs P₀ (es ++ [.rollback name]) (P.rollback name).2

namespace Runs

variable {P₀ P : Prover} {es : List Event}

/-- A line that holds a directive, and imports nothing, adds this directive to the journal. -/
theorem direct {text : String} {d : Directive} {ending : Ending} (h : Runs P₀ es P)
    (htext : Directive.parse text = .ok (some d)) (hd : d.name ≠ "Using")
    (hending : Ending.of (P.direct d).2 = ending) :
    Runs P₀ (es ++ [.direct d ending]) (P.direct d).1 :=
  hending ▸ h.line (.direct (P := P) htext hd : Carries ∅ _ _ _ _ _)

/-- Replaying the journal of a run leads to where the run leads. -/
theorem replay_eq (h : Runs P₀ es P) : P₀.replay es = P := by
  induction h with
  | start => rfl
  | line _ hline ih => rw [Prover.replay_append, ih, hline.replay_eq]
  | undo _ ih | mark _ _ ih | rollback _ _ ih =>
    rw [Prover.replay_append, ih]
    rfl

/-- The journal of a run has only events that may happen. -/
theorem proper (h : Runs P₀ es P) : P₀.Proper es := by
  induction h with
  | start => trivial
  | line h hline ih =>
    refine Prover.proper_append.mpr ⟨ih, ?_⟩
    rw [h.replay_eq]
    exact hline.proper
  | undo _ ih | mark _ _ ih | rollback _ _ ih =>
    exact Prover.proper_append.mpr ⟨ih, trivial, trivial⟩

end Runs

/-- The reachable states are those that a run from a new prover leads to. -/
theorem Prover.reachable_iff_runs {P : Prover} :
    P.Reachable ↔ ∃ base es, Runs (Prover.initial base) es P := by
  constructor
  · intro h
    induction h with
    | initial base => exact ⟨base, [], .start⟩
    | @process P _ fs text ih =>
      obtain ⟨base, es, h⟩ := ih
      obtain ⟨es', hline⟩ := carries_iff_run.mpr (Eq.refl (Task.run fs P (.line text)))
      exact ⟨base, _, h.line hline⟩
    | undo _ ih =>
      obtain ⟨base, es, h⟩ := ih
      exact ⟨base, _, h.undo⟩
    | mark _ name ih =>
      obtain ⟨base, es, h⟩ := ih
      exact ⟨base, _, h.mark name⟩
    | rollback _ name ih =>
      obtain ⟨base, es, h⟩ := ih
      exact ⟨base, _, h.rollback name⟩
  · rintro ⟨base, es, h⟩
    induction h with
    | start => exact .initial base
    | @line fs text P P' _ _ r _ hline ih =>
      have hreach := ih.process fs text
      rw [show process fs text P = (P', r) from hline.run_eq] at hreach
      exact hreach
    | undo _ ih => exact ih.undo
    | mark _ name ih => exact ih.mark name
    | rollback _ name ih => exact ih.rollback name

end RuleProver
