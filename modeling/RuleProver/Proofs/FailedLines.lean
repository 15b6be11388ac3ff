import RuleProver.Proofs.Journal
import RuleProver.Proofs.Undo

/-!
# What a line that fails leaves behind

A directive that does not succeed adds nothing to the states of the components: what it is to do is
computed first, and a component moves on only when everything is there. The line of a directive that
fails is therefore without effect on the states. A line that imports a file carries out the lines of
the file one after another and stops at the first that fails. Nothing is taken back then, so the
states are those that the directives before this one have led to.

Two kinds of directives may leave a trace all the same, and nothing is said about them here
(`Session.Lingers`): an axiom or a functorial rule is given its name before it is looked at, and the
goals move on before the answer of `By` or `Done` is put together, which may break off.

## Main definitions

* `Step.Prompt` — a step that breaks off only before it moves on
* `Session.Lingers` — a directive that gives a name, or breaks off when it has moved the goals on
* `Event.fails`, `FailsLast` — directives that do not succeed, and journals that end with one
* `Prover.Tidy` — no directive of a journal that does not succeed lingers

## Main results

* `Session.perform_error_cases` — what a directive that breaks off may have done
* `Session.states_of_unsuccessful` — a directive that does not succeed leaves the states as they are
* `Carries.failsLast` — a directive that does not succeed ends everything it is part of
* `Prover.states_of_failed_line` — the states after a line that does not succeed
* `Prover.failed_import_keeps` — a file that is imported in part
-/

namespace RuleProver

/-! ## Steps that break off in time -/

namespace Step

variable {σ : Type}

/-- A step that breaks off has not moved on. -/
def Prompt (step : Step σ) : Prop := ∀ f, step.2 = .error f → step.1 = none

theorem prompt_fault (f : Fault) : (fault f : Step σ).Prompt := fun _ _ => rfl

theorem prompt_ofPair (r : Except Fault (Answer × Option σ)) : (ofPair r).Prompt := by
  cases r with
  | error f => exact prompt_fault f
  | ok pair => exact nofun

theorem Regular.prompt {step : Step σ} (h : step.Regular) : step.Prompt := by
  cases h with
  | fault f => exact prompt_fault f
  | failed r => exact nofun
  | done s r => exact nofun

end Step

/-! ## Directives that do not succeed -/

theorem Verb.name_of_ofName? {s : String} {v : Verb} (h : ofName? s = some v) : v.name = s := by
  have hname := List.find?_some h
  simpa using hname

namespace Session

variable {S S' : Session} {v : Verb} {args : List Object} {d : Directive} {f : Fault}

theorem eq_of_step {σ : Type} {step : Step σ} {c : Component} (hstep : step.Prompt)
    (hmove : step.1 = none ∧ S' = S ∨ ∃ s, step.1 = some s ∧ Pushed S c S')
    (h : step.2 = .error f) : S' = S := by
  rcases hmove with ⟨-, rfl⟩ | ⟨s, hsome, -⟩
  · rfl
  · cases (hstep f h).symm.trans hsome

variable [HoleOrder]

/-- **A directive that breaks off has done nothing**, unless it has moved the goals on before its
answer was put together. -/
theorem perform_error_cases (hS : S.chainsPremises = false) (h : (S.perform v args).2 = .error f) :
    (S.perform v args).1 = S ∨
      (v = .leadBack ∨ v = .done) ∧ Pushed S .goal (S.perform v args).1 := by
  have hgoals : ∀ step : Step GoalState, (S.moveGoals step).1 = S ∨
      Pushed S .goal (S.moveGoals step).1 := by
    intro step
    rcases S.moveGoals_cases step with ⟨-, heq⟩ | ⟨G, -, hpushed⟩
    · exact .inl heq
    · exact .inr hpushed
  have hregular : ∀ step : Step GoalState, step.Regular → step.2 = .error f →
      (S.moveGoals step).1 = S :=
    fun step hstep h => eq_of_step hstep.prompt (S.moveGoals_cases step) h
  cases v with
  | define =>
    rcases args with _ | ⟨name, _ | ⟨t, _ | ⟨_, _⟩⟩⟩
    · exact .inl rfl
    · exact .inl rfl
    · cases h
    · exact .inl rfl
  | start =>
    rcases args with _ | ⟨t, _ | ⟨_, _⟩⟩
    · exact .inl rfl
    · exact .inl (eq_of_step (Step.prompt_ofPair _) (S.moveChain_cases _) h)
    · exact .inl rfl
  | use =>
    rcases args with _ | ⟨rule, _ | ⟨_, _⟩⟩
    · exact .inl rfl
    · exact .inl (eq_of_step (Step.prompt_ofPair _) (S.moveChain_cases _) h)
    · exact .inl rfl
  | clear =>
    cases args with
    | nil => cases h
    | cons => exact .inl rfl
  | verify => rcases args with _ | ⟨_, _ | ⟨_, _⟩⟩ <;> exact .inl rfl
  | reduce => rcases args with _ | ⟨_, _ | ⟨_, _⟩⟩ <;> exact .inl rfl
  | functorial =>
    rcases args with _ | ⟨inner, _ | ⟨name, _ | ⟨position, _ | ⟨outer, _ | ⟨rule, _ | ⟨_, _⟩⟩⟩⟩⟩⟩
    · exact .inl rfl
    · exact .inl rfl
    · exact .inl rfl
    · exact .inl rfl
    · exact .inl rfl
    · exact .inl (eq_of_step (Step.prompt_ofPair _) (S.moveFunctorials_cases _) h)
    · exact .inl rfl
  | goal =>
    rcases args with _ | ⟨t, _ | ⟨_, _⟩⟩
    · exact .inl rfl
    · exact .inl (hregular _ (GoalState.regular_handleGoal t) h)
    · exact .inl rfl
  | assume =>
    rcases args with _ | ⟨t, _ | ⟨_, _⟩⟩
    · rw [perform, assume_eq hS] at h ⊢
      exact .inl (hregular _ (GoalState.regular_handleAssume none) h)
    · rw [perform, assume_eq hS] at h ⊢
      exact .inl (hregular _ (GoalState.regular_handleAssume (some t)) h)
    · exact .inl rfl
  | leadBack =>
    rcases args with _ | ⟨rule, _ | ⟨force, _ | ⟨_, _⟩⟩⟩
    · exact .inl rfl
    · exact (hgoals _).imp_right fun hpushed => ⟨.inl rfl, hpushed⟩
    · exact (hgoals _).imp_right fun hpushed => ⟨.inl rfl, hpushed⟩
    · exact .inl rfl
  | done =>
    rcases args with _ | ⟨t, _ | ⟨_, _⟩⟩
    · exact (hgoals _).imp_right fun hpushed => ⟨.inr rfl, hpushed⟩
    · exact (hgoals _).imp_right fun hpushed => ⟨.inr rfl, hpushed⟩
    · exact .inl rfl
  | check => cases args <;> exact .inl rfl
  | posit => exact .inl (hregular _ (GoalState.regular_handleAxiom args) h)

/-- A directive that gives a name, or breaks off when `By` or `Done` has moved the goals on. -/
def Lingers (S : Session) (d : Directive) : Prop :=
  GivesName d ∨ (d.name = "By" ∨ d.name = "Done") ∧
    ∃ f G, (S.process d).2 = .error f ∧ (S.process d).1.goals = S.goals.push G

/-- **A directive that does not succeed leaves the states as they are.** -/
theorem states_of_unsuccessful (hS : S.Intact) (hd : ¬ S.Lingers d)
    (hr : Ending.of (S.process d).2 ≠ .succeeded) : (S.process d).1.states = S.states := by
  rw [Lingers, not_or] at hd
  obtain ⟨hname, hgoals⟩ := hd
  have hnamed : S.named d = S := S.named_of_not_givesName hname
  have hprocessed := processed hS.order d
  generalize S.process d = x at hprocessed hr hgoals ⊢
  cases hprocessed with
  | unprepared f => rw [hnamed]
  | unknown => rw [hnamed]
  | @brokenOff v args S' f hv h =>
    rw [hnamed] at h
    have hcases := perform_error_cases hS.chainsPremises (congrArg Prod.snd h)
    rw [h] at hcases
    rcases hcases with rfl | ⟨hlate, hpushed⟩
    · rfl
    · cases hpushed with
      | goals G =>
        rw [← Verb.name_of_ofName? hv] at hgoals
        refine absurd ⟨hlate.imp ?_ ?_, f, G, rfl, rfl⟩ hgoals
        · rintro rfl
          rfl
        · rintro rfl
          rfl
  | @handled v args S' a results hv h =>
    rw [hnamed] at h
    have hanswered := answered_perform hS.chainsPremises (congrArg Prod.snd h)
    rw [h] at hanswered
    cases hanswered with
    | moved _ hsuccess _ => exact absurd (if_pos hsuccess) hr
    | stayed => rfl

end Session

/-! ## Lines that do not succeed -/

/-- A directive that does not succeed. -/
def Event.fails : Event → Bool
  | .direct _ ending => ending ≠ .succeeded
  | _ => false

/-- Journals in which no directive fails, or one that is followed only by giving up imports. -/
inductive FailsLast : List Event → Prop
  | never {es : List Event} (h : ∀ e ∈ es, e.fails = false) : FailsLast es
  | once {es : List Event} (h : ∀ e ∈ es, e.fails = false) (d : Directive) {ending : Ending}
      (hending : ending ≠ .succeeded) (n : Nat) :
      FailsLast (es ++ .direct d ending :: List.replicate n .leave)

namespace FailsLast

variable {es es' : List Event}

theorem append (h : FailsLast es') (hes : ∀ e ∈ es, e.fails = false) : FailsLast (es ++ es') := by
  cases h with
  | never h => exact .never (List.forall_mem_append.mpr ⟨hes, h⟩)
  | once h d hending n =>
    rw [← List.append_assoc]
    exact .once (List.forall_mem_append.mpr ⟨hes, h⟩) d hending n

theorem enter (h : FailsLast es) (path : String) : FailsLast (.enter path :: es) := by
  have hentered : ∀ e ∈ [Event.enter path], e.fails = false := by simp [Event.fails]
  exact h.append hentered

theorem leave (h : FailsLast es) : FailsLast (es ++ [.leave]) := by
  cases h with
  | never h => exact .never (List.forall_mem_append.mpr ⟨h, by simp [Event.fails]⟩)
  | once h d hending n =>
    rw [List.append_assoc, List.cons_append, ← List.replicate_succ']
    exact .once h d hending (n + 1)

end FailsLast

/-- **A directive that fails ends everything it is part of.** What succeeds has none. -/
theorem Carries.failsLast [HoleOrder] {fs : FileSystem} {task : Task} {P P' : Prover}
    {es : List Event} {r : Except Fault Answer} (h : Carries fs task P es P' r) :
    FailsLast es ∧ (Ending.of r = .succeeded → ∀ e ∈ es, e.fails = false) := by
  induction h with
  | unreadable | idle | unnamed | nameless | unresolved | again | circular | missing | noMore =>
    exact ⟨.never nofun, fun _ => nofun⟩
  | @direct line P d _ _ =>
    have hsucceeded : Ending.of (P.direct d).2 = .succeeded →
        ∀ e ∈ [Event.direct d (.of (P.direct d).2)], e.fails = false := by
      intro hr
      simp [Event.fails, hr]
    refine ⟨?_, hsucceeded⟩
    by_cases hr : Ending.of (P.direct d).2 = .succeeded
    · exact .never (hsucceeded hr)
    · have hnone : ∀ e ∈ ([] : List Event), e.fails = false := nofun
      exact .once hnone d hr 0
  | imports _ _ _ ih => exact ih
  | @completed name _ P _ es _ _ _ ha ih =>
    have hnone : ∀ e ∈ Event.enter (P.pathOf name) :: es ++
        [.finish (P.pathOf name), .mark ("import:" ++ name)], e.fails = false :=
      List.forall_mem_append.mpr
        ⟨List.forall_mem_cons.mpr ⟨rfl, ih.2 (if_pos ha)⟩, by simp [Event.fails]⟩
    exact ⟨.never hnone, fun _ => hnone⟩
  | refused _ _ ha ih =>
    refine ⟨(ih.1.enter _).leave, fun hr => ?_⟩
    simp [Ending.of, ha] at hr
  | interrupted _ _ ih =>
    refine ⟨(ih.1.enter _).leave, fun hr => ?_⟩
    simp [Ending.of, Answer.failed] at hr
  | next _ ha _ ih ih' =>
    have hnone := ih.2 (if_pos ha)
    exact ⟨ih'.1.append hnone, fun hr => List.forall_mem_append.mpr ⟨hnone, ih'.2 hr⟩⟩
  | stop _ _ ih | fault _ ih => exact ih

namespace Prover

variable {P P' : Prover} {fs : FileSystem} {line : String} {es : List Event}
  {r : Except Fault Answer}

/-- No directive of a journal that fails lingers at its moment. -/
def Tidy [HoleOrder] (P : Prover) (es : List Event) : Prop :=
  ∀ before d ending after, es = before ++ .direct d ending :: after → ending ≠ .succeeded →
    ¬ (P.replay before).session.Lingers d

theorem session_replay_leave [HoleOrder] (P : Prover) (n : Nat) :
    (P.replay (List.replicate n .leave)).session = P.session := by
  induction n generalizing P with
  | zero => rfl
  | succ n ih => exact ih P.leave

/-- The states after a journal are those that it leads to without the directive that fails. -/
theorem states_replay_of_failsLast [HoleOrder] (hP : P.session.Intact) (hproper : P.Proper es)
    (hlast : FailsLast es) (htidy : P.Tidy es) :
    (P.replay es).session.states = (P.replay (es.filter fun e => !e.fails)).session.states := by
  cases hlast with
  | never h => rw [List.filter_eq_self.mpr (by simpa using h)]
  | @once es h d ending hending n =>
    have hends : Ending.of ((P.replay es).session.process d).2 = ending :=
      (proper_append.mp hproper).2.1
    have hstates := Session.states_of_unsuccessful (intact_replay hP es)
      (htidy es d ending _ rfl hending) fun hsucceeded => hending (hends.symm.trans hsucceeded)
    have hfilter : (es ++ Event.direct d ending :: List.replicate n Event.leave).filter
        (fun e => !e.fails) = es ++ List.replicate n Event.leave := by
      rw [List.filter_append, List.filter_eq_self.mpr (by simpa using h),
        List.filter_cons_of_neg (by simpa [Event.fails] using hending)]
      simp [Event.fails]
    rw [hfilter, replay_append, replay_append, session_replay_leave]
    exact (congrArg Session.states (session_replay_leave _ n)).trans hstates

/-- A line that enters no file carries out nothing but its own directive, if it holds one. -/
theorem filter_fails_of_not_enter [HoleOrder] (h : Carries fs (.line line) P es P' r)
    (hr : Ending.of r ≠ .succeeded) (henter : ∀ path, .enter path ∉ es) :
    es.filter (fun e => !e.fails) = [] := by
  cases h with
  | unreadable | idle | unnamed | nameless => rfl
  | direct => simpa [Event.fails] using hr
  | imports _ _ hfile =>
    cases hfile with
    | unresolved | again | circular | missing => rfl
    | completed | refused | interrupted =>
      exact absurd (List.mem_append_left _ List.mem_cons_self) (henter _)

/-- **The states after a line that does not succeed.** In every state that a prover can be brought
to, and in every file system, a line that fails or breaks off carries out at most one directive that
fails, after which imports are only given up. It leads to the states that its directives lead to
without this one, and if it enters no file it leaves the states as they are. Of the states, nothing
is said where a directive fails and lingers. -/
theorem states_of_failed_line [HoleOrder] (hP : P.Reachable) (hline : process fs line P = (P', r))
    (hr : Ending.of r ≠ .succeeded) :
    (∃ es, Carries fs (.line line) P es P' r) ∧
      ∀ es, Carries fs (.line line) P es P' r → FailsLast es ∧ (P.Tidy es →
        P'.session.states = (P.replay (es.filter fun e => !e.fails)).session.states ∧
          ((∀ path, .enter path ∉ es) → P'.session.states = P.session.states)) := by
  refine ⟨carries_iff_run.mpr hline, fun es hes => ⟨hes.failsLast.1, fun htidy => ?_⟩⟩
  have hstates := states_replay_of_failsLast hP.intact hes.proper hes.failsLast.1 htidy
  rw [hes.replay_eq] at hstates
  refine ⟨hstates, fun henter => ?_⟩
  rw [hstates, filter_fails_of_not_enter hes hr henter]
  rfl

/-- A file whose second directive is unknown. -/
def halfway : Files := [("/f.end", "Start A\nFoo")]

/-- What happens when it is imported. -/
def halfwayJournal : List Event :=
  [.enter "/f.end", .direct ⟨"Start", [.const "A"]⟩ .succeeded, .direct ⟨"Foo", []⟩ .failed, .leave]

theorem parse_using_f : Directive.parse "Using f" = .ok (some ⟨"Using", [.const "f"]⟩) :=
  Directive.parse_of_readAll [⟨.symbol, "Using", 0⟩, ⟨.symbol, "f", 6⟩] (by cbv) (by cbv) (by cbv)

theorem carries_halfway : ∃ r, Ending.of r ≠ .succeeded ∧ Carries halfway (.line "Using f")
    (initial "") halfwayJournal ((initial "").replay halfwayJournal) r := by
  have hstart := Directive.parse_of_ofLine? ofLine?_start
  have hfoo := Directive.parse_of_ofLine? ofLine?_foo
  have hpath : (initial "").pathOf "f" = "/f.end" := rfl
  have hlines : directiveLines "Start A\nFoo" = ["Start A", "Foo"] := rfl
  have hopens : (initial "").Opens halfway "f" "Start A\nFoo" :=
    ⟨rfl, nofun, nofun, hpath ▸ rfl⟩
  -- the second line stops the import
  have hcarried : Carries halfway (.lines ["Start A", "Foo"]) ((initial "").enter "/f.end") _ _ _ :=
    .next (.direct hstart (by decide)) rfl (.stop (.direct hfoo (by decide)) rfl)
  rw [← hlines, ← hpath] at hcarried
  have hfile := Carries.refused hopens hcarried rfl
  rw [hpath] at hfile
  exact ⟨_, by decide, .imports parse_using_f rfl hfile⟩

/-- When half of a file has been imported, the states are those that this half leads to. -/
theorem states_of_halfway_import :
    ∃ P' r, process halfway "Using f" (initial "") = (P', r) ∧ Ending.of r ≠ .succeeded ∧
      P'.session.states = ((initial "").replay
        [.enter "/f.end", .direct ⟨"Start", [.const "A"]⟩ .succeeded, .leave]).session.states := by
  obtain ⟨r, hr, hcarries⟩ := carries_halfway
  have hrun : process halfway "Using f" (initial "") = (_, r) := carries_iff_run.mp ⟨_, hcarries⟩
  have htidy : (initial "").Tidy halfwayJournal := by
    intro before d ending after heq hending
    have hmem : Event.direct d ending ∈ halfwayJournal := by simp [heq]
    obtain rfl : d = ⟨"Foo", []⟩ := by
      simp only [halfwayJournal, List.mem_cons, List.not_mem_nil, reduceCtorEq, false_or, or_false,
        Event.direct.injEq] at hmem
      rcases hmem with ⟨-, hsucceeded⟩ | ⟨hd, -⟩
      · exact absurd hsucceeded hending
      · exact hd
    rintro (⟨hname, -⟩ | ⟨hname, -⟩)
    · simp at hname
    · simp at hname
  have hstates := ((states_of_failed_line (.initial "") hrun hr).2 _ hcarries).2 htidy
  exact ⟨_, r, hrun, hr, hstates.1⟩

/-- The chain that the first half of a file has started stays when the import fails. -/
theorem failed_import_keeps :
    ∃ P' r, process halfway "Using f" (initial "") = (P', r) ∧ Ending.of r ≠ .succeeded ∧
      P'.session.states ≠ (initial "").session.states := by
  obtain ⟨r, hr, hcarries⟩ := carries_halfway
  refine ⟨_, r, carries_iff_run.mp ⟨_, hcarries⟩, hr, fun hstates => ?_⟩
  cases congrArg (fun states => states.2.1.isSome) hstates

end Prover

end RuleProver
