import RuleProver.Proofs.PositionalUse
import RuleProver.Proofs.Reachable

/-!
# Taking back a directive

Undoing takes one step back in the history of the component that handled the last directive. This
restores what was there before the directive only if the directive has taken one step forward there,
and nowhere else.

A directive that succeeds takes this step, except for those that only look (`Step.Faithful`,
`Session.Answered`). A directive that fails or only looks takes no step and is recorded all the
same, and a directive that no component knows is not recorded. In all these cases an earlier step is
taken back, if there is one. The name that an axiom or a functorial rule is given is a step in the
history of the aliases, which is never taken back.

## Main definitions

* `Step.Regular` — a step that moves on only when it succeeds
* `Session.Answered` — what a directive that is answered has done
* `Session.Moves` — the directive has moved its component on
* `Session.takenBack?`, `Session.stepBack` — what is taken back after a directive

## Main results

* `Session.answered_perform` — a directive moves its component on exactly when it succeeds
* `Prover.undo_process_iff` — when undoing a line restores the states of all components
* `Prover.undone_wrongly` — lines for which it does not
-/

namespace RuleProver

/-! ## Steps that move on when they succeed -/

namespace Step

variable {σ : Type}

/-- When the step is answered, it succeeds exactly if it moves on. -/
def Faithful (step : Step σ) : Prop := ∀ a, step.2 = .ok a → a.success = step.1.isSome

theorem faithful_error (s? : Option σ) (f : Fault) : Faithful (s?, .error f) := nofun

theorem faithful_stay (r : Result) : (stay (.failed r) : Step σ).Faithful := by
  rintro a ⟨⟩
  rfl

theorem faithful_move (s : σ) (r : Result) : (move s (.done r)).Faithful := by
  rintro a ⟨⟩
  rfl

/-- A computation before a step may break off, and that is all it can do. -/
theorem faithful_bind {α : Type} {x : Except Fault α} {k : α → Except Fault (Step σ)}
    (h : ∀ y, (ofExcept (k y)).Faithful) : (ofExcept (x >>= k)).Faithful := by
  cases x with
  | error f => exact faithful_error none f
  | ok y => exact h y

theorem faithful_ofPair {r : Except Fault (Answer × Option σ)}
    (h : ∀ a s?, r = .ok (a, s?) → a.success = s?.isSome) : (ofPair r).Faithful := by
  cases r with
  | error f => exact faithful_error none f
  | ok pair =>
    rintro a ⟨⟩
    exact h _ _ rfl

/-- A step that breaks off or fails before it moves on, or succeeds and moves on. -/
inductive Regular : Step σ → Prop
  | fault (f : Fault) : Regular (fault f)
  | failed (r : Result) : Regular (stay (.failed r))
  | done (s : σ) (r : Result) : Regular (move s (.done r))

theorem Regular.faithful {step : Step σ} (h : step.Regular) : step.Faithful := by
  cases h with
  | fault f => exact faithful_error none f
  | failed r => exact faithful_stay r
  | done s r => exact faithful_move s r

end Step

namespace GoalState

open Step

variable {G : GoalState}

theorem regular_handleGoal [HoleOrder] (t : Object) : (G.handleGoal t).Regular := by
  rw [handleGoal]
  cases G.setGoal t (some "=>") with
  | error f => exact .fault f
  | ok set => exact .done set.1 _

theorem regular_handleAssume [HoleOrder] (arg? : Option Object) :
    (G.handleAssume arg?).1.Regular := by
  unfold handleAssume
  split
  · exact .fault _
  · split
    · rename_i s l r _
      have hput : ∀ step, (Object.goal (some s) r >>= fun g => G.update (l.rule s g) >>= fun G' =>
          pure (move G' (.done (newGoal g)), some l)) = .ok step → step.1.Regular := by
        intro step h
        obtain ⟨g, -, h⟩ := bind_eq_ok_iff.mp h
        obtain ⟨G', -, h⟩ := bind_eq_ok_iff.mp h
        cases h
        exact .done G' _
      dsimp only
      split
      · rename_i step hstep
        split at hstep
        · obtain ⟨_, -, hstep⟩ := bind_eq_ok_iff.mp hstep
          obtain ⟨_, -, hstep⟩ := bind_eq_ok_iff.mp hstep
          split at hstep
          · cases hstep
            exact .failed _
          · exact hput step hstep
        · exact hput step hstep
      · exact .fault _
    · exact .failed _

theorem regular_handleAxiom (args : List Object) : (G.handleAxiom args).Regular := by
  unfold handleAxiom
  split
  · exact .done _ _
  · exact .done _ _
  · exact .failed _

variable [HoleOrder]

theorem faithful_handleBy (rule : Object) (force? : Option Object) :
    (G.handleBy rule force?).Faithful := by
  rw [handleBy]
  split
  · exact faithful_error none _
  · refine faithful_bind fun found => ?_
    cases found with
    | error e => exact faithful_stay e
    | ok p =>
      refine faithful_bind fun verdict => ?_
      dsimp only
      split
      · exact faithful_stay _
      · -- a known rule is used as it is, and a forced one as a goal
        split
        all_goals
          refine faithful_bind fun used => faithful_bind fun tree => faithful_bind fun G' => ?_
          split
          · exact faithful_move G' _
          · exact faithful_error _ _

theorem faithful_close (t : Object) : (G.close t).Faithful := by
  refine faithful_bind fun G' => ?_
  split
  · exact faithful_move G' _
  · exact faithful_error _ _

theorem faithful_closeWith (g candidate : Object) : (G.closeWith g candidate).Faithful := by
  refine faithful_bind fun verdict => faithful_bind fun reduced => ?_
  dsimp only
  split
  · exact faithful_close candidate
  · split
    · split
      · refine faithful_bind fun verdict' => faithful_bind fun right => ?_
        split
        · exact faithful_close _
        · exact faithful_stay _
      · exact faithful_stay _
    · exact faithful_stay _

theorem faithful_handleDone (candidate? : Option Object) : (G.handleDone candidate?).Faithful := by
  unfold handleDone
  split
  · exact faithful_stay _
  · split
    · exact faithful_closeWith _ _
    · dsimp only
      split
      · exact faithful_close _
      · exact faithful_stay _

end GoalState

/-! ## What a directive that is answered does -/

/-- Directives that look at the state and never change it. -/
def Verb.looks : Verb → Bool
  | .verify | .reduce | .check => true
  | _ => false

namespace Session

variable {S S' : Session} {v : Verb} {a : Answer} {d : Directive}

/-- A directive that is answered moves its component on when it succeeds. The directives that only
look leave the session as it is, and so do those that fail. -/
inductive Answered (S : Session) (v : Verb) (success : Bool) : Session → Prop
  | moved {S' : Session} (hv : v.looks = false) (hs : success = true)
      (h : Pushed S v.component S') : Answered S v success S'
  | stayed (h : v.looks = true ∨ success = false) : Answered S v success S

theorem moveAliases_cases (S : Session) (step : Step Aliases) :
    step.1 = none ∧ (S.moveAliases step).1 = S ∨
      ∃ A, step.1 = some A ∧ Pushed S .alias (S.moveAliases step).1 := by
  rw [moveAliases]
  cases step.1 with
  | none => exact .inl ⟨rfl, rfl⟩
  | some A => exact .inr ⟨A, rfl, .aliases A⟩

theorem moveChain_cases (S : Session) (step : Step (Option Chain)) :
    step.1 = none ∧ (S.moveChain step).1 = S ∨
      ∃ c?, step.1 = some c? ∧ Pushed S .chain (S.moveChain step).1 := by
  rw [moveChain]
  cases step.1 with
  | none => exact .inl ⟨rfl, rfl⟩
  | some c? => exact .inr ⟨c?, rfl, .chain c?⟩

theorem moveFunctorials_cases (S : Session) (step : Step Functorials) :
    step.1 = none ∧ (S.moveFunctorials step).1 = S ∨
      ∃ F, step.1 = some F ∧ Pushed S .functorial (S.moveFunctorials step).1 := by
  rw [moveFunctorials]
  cases step.1 with
  | none => exact .inl ⟨rfl, rfl⟩
  | some F => exact .inr ⟨F, rfl, .functorials F⟩

theorem moveGoals_cases (S : Session) (step : Step GoalState) :
    step.1 = none ∧ (S.moveGoals step).1 = S ∨
      ∃ G, step.1 = some G ∧ Pushed S .goal (S.moveGoals step).1 := by
  rw [moveGoals]
  cases step.1 with
  | none => exact .inl ⟨rfl, rfl⟩
  | some G => exact .inr ⟨G, rfl, .goals G⟩

/-- A step that moves on when it succeeds, taken by the component of a directive. -/
theorem answered_of_step {σ : Type} {step : Step σ} (hstep : step.Faithful) (hv : v.looks = false)
    (hmove : step.1 = none ∧ S' = S ∨ ∃ s, step.1 = some s ∧ Pushed S v.component S')
    (h : step.2 = .ok a) : Answered S v a.success S' := by
  have hsuccess := hstep a h
  rcases hmove with ⟨hnone, rfl⟩ | ⟨s, hsome, hpushed⟩
  · exact .stayed (.inr (by rw [hsuccess, hnone, Option.isSome_none]))
  · exact .moved hv (by rw [hsuccess, hsome, Option.isSome_some]) hpushed

theorem faithful_define (A : Aliases) (name t : Object) :
    Step.Faithful ((A.handleDefine name t).2, .ok (A.handleDefine name t).1) := by
  rintro a ⟨⟩
  unfold Aliases.handleDefine
  split <;> rfl

theorem faithful_chainStep {r : Except Fault (Answer × Option Chain)}
    (h : ∀ a c?, r = .ok (a, c?) → a.success = c?.isSome) : (chainStep r).Faithful := by
  refine Step.faithful_ofPair fun a s? hr => ?_
  obtain ⟨⟨a', c?⟩, hok, heq⟩ := map_eq_ok_iff.mp hr
  cases heq
  rw [h a c? hok, Option.isSome_map]

theorem success_of_handleFunctorial {F : Functorials} {inner name position outer rule : Object}
    {F? : Option Functorials}
    (h : F.handleFunctorial inner name position outer rule = .ok (a, F?)) :
    a.success = F?.isSome := by
  unfold Functorials.handleFunctorial at h
  split at h
  · split at h
    · split at h
      · obtain ⟨i?, -, h⟩ := bind_eq_ok_iff.mp h
        split at h
        · split at h
          · cases h
            rfl
          · cases h
            rfl
        · cases h
          rfl
      · cases h
        rfl
    · cases h
      rfl
  · cases h
    rfl

/-- **A directive that is answered moves its component on exactly when it succeeds**, unless it only
looks. -/
theorem answered_perform [HoleOrder] (hS : S.chainsPremises = false) {args : List Object}
    (h : (S.perform v args).2 = .ok a) : Answered S v a.success (S.perform v args).1 := by
  cases v with
  | define =>
    rcases args with _ | ⟨name, _ | ⟨t, _ | ⟨_, _⟩⟩⟩
    · cases h
    · cases h
    · exact answered_of_step (faithful_define _ _ _) rfl (S.moveAliases_cases _) h
    · cases h
  | start =>
    rcases args with _ | ⟨t, _ | ⟨_, _⟩⟩
    · cases h
    · refine answered_of_step (faithful_chainStep fun a c? hstart => ?_) rfl (S.moveChain_cases _) h
      obtain ⟨⟨c, r⟩, -, hstart⟩ := bind_eq_ok_iff.mp hstart
      cases hstart
      rfl
    · cases h
  | use =>
    rcases args with _ | ⟨rule, _ | ⟨_, _⟩⟩
    · cases h
    · exact answered_of_step (faithful_chainStep fun _ _ => success_of_handleUse) rfl
        (S.moveChain_cases _) h
    · cases h
  | clear =>
    cases args with
    | nil => exact answered_of_step (Step.faithful_move none _) rfl (S.moveChain_cases _) h
    | cons => cases h
  | verify =>
    rcases args with _ | ⟨_, _ | ⟨_, _⟩⟩
    · exact .stayed (.inl rfl)
    · exact .stayed (.inl rfl)
    · cases h
  | reduce =>
    rcases args with _ | ⟨_, _ | ⟨_, _⟩⟩
    · cases h
    · exact .stayed (.inl rfl)
    · cases h
  | functorial =>
    rcases args with _ | ⟨inner, _ | ⟨name, _ | ⟨position, _ | ⟨outer, _ | ⟨rule, _ | ⟨_, _⟩⟩⟩⟩⟩⟩
    · cases h
    · cases h
    · cases h
    · cases h
    · cases h
    · exact answered_of_step (Step.faithful_ofPair fun _ _ => success_of_handleFunctorial) rfl
        (S.moveFunctorials_cases _) h
    · cases h
  | goal =>
    rcases args with _ | ⟨t, _ | ⟨_, _⟩⟩
    · cases h
    · exact answered_of_step (GoalState.regular_handleGoal t).faithful rfl (S.moveGoals_cases _) h
    · cases h
  | assume =>
    rcases args with _ | ⟨t, _ | ⟨_, _⟩⟩
    · rw [perform, assume_eq hS] at h ⊢
      exact answered_of_step (GoalState.regular_handleAssume none).faithful rfl
        (S.moveGoals_cases _) h
    · rw [perform, assume_eq hS] at h ⊢
      exact answered_of_step (GoalState.regular_handleAssume (some t)).faithful rfl
        (S.moveGoals_cases _) h
    · cases h
  | leadBack =>
    rcases args with _ | ⟨rule, _ | ⟨force, _ | ⟨_, _⟩⟩⟩
    · cases h
    · exact answered_of_step (GoalState.faithful_handleBy rule none) rfl (S.moveGoals_cases _) h
    · exact answered_of_step (GoalState.faithful_handleBy rule (some force)) rfl
        (S.moveGoals_cases _) h
    · cases h
  | done =>
    rcases args with _ | ⟨t, _ | ⟨_, _⟩⟩
    · exact answered_of_step (GoalState.faithful_handleDone none) rfl (S.moveGoals_cases _) h
    · exact answered_of_step (GoalState.faithful_handleDone (some t)) rfl (S.moveGoals_cases _) h
    · cases h
  | check =>
    cases args with
    | nil => exact .stayed (.inl rfl)
    | cons => cases h
  | posit =>
    exact answered_of_step (GoalState.regular_handleAxiom args).faithful rfl (S.moveGoals_cases _) h

/-- A directive that is answered is unknown, or it has been carried out and is recorded. -/
theorem process_ok_cases [HoleOrder] (hS : S.Intact) (h : S.process d = (S', .ok a)) :
    Verb.ofName? d.name = none ∧ S' = S.named d ∨
      ∃ v S₁, Verb.ofName? d.name = some v ∧ Answered (S.named d) v a.success S₁ ∧
        S' = { S₁ with handled := S₁.handled ++ [v] } := by
  have hprocessed := processed hS.order d
  rw [h] at hprocessed
  cases hprocessed with
  | unknown hd => exact .inl ⟨hd, rfl⟩
  | @handled v args S₁ a' results hd hperform =>
    have hanswered : Answered (S.named d) v a'.success ((S.named d).perform v args).1 :=
      answered_perform (hS.named d).chainsPremises (by rw [hperform])
    rw [hperform] at hanswered
    exact .inr ⟨v, S₁, hd, hanswered, rfl⟩

/-! ## Undoing a directive -/

/-- The states of all components. -/
def states (S : Session) : Aliases × Option Chain × Functorials × Unit × GoalState :=
  (S.aliases.current, S.chain.current, S.functorials.current, S.numerals.current, S.goals.current)

/-- Goes one step back in the history of the component of a directive, if there is one. -/
def stepBack (S : Session) : Option Verb → Session
  | none => S
  | some v => S.onComponent (fun h => h.undo.2) v.component

/-- The directive that is taken back after another one: that one itself, or the one handled before
it, if no component knows it. -/
def takenBack? (S : Session) (d : Directive) : Option Verb :=
  (Verb.ofName? d.name).or S.handled.getLast?

/-- The answer shows that a directive has moved its component on. -/
def Moves (d : Directive) (a : Answer) : Prop :=
  ∃ v, Verb.ofName? d.name = some v ∧ v.looks = false ∧ a.success = true

theorem states_undo (S : Session) : S.undo.2.states = (S.stepBack S.handled.getLast?).states := by
  rw [undo]
  cases S.handled.getLast? with
  | none => rfl
  | some v => cases v <;> rfl

theorem undo_handled (S : Session) (v : Verb) :
    { S with handled := S.handled ++ [v] }.undo.2 = S.stepBack (some v) := by
  simp [undo, stepBack]

/-- A move is taken back, and what is left of the directive is the name that it has given. -/
theorem undo_of_moves [HoleOrder] (hS : S.Intact) (h : S.process d = (S', .ok a))
    (hmoves : Moves d a) :
    S'.undo.2 = S.named d := by
  obtain ⟨v, hv, hlooks, hsuccess⟩ := hmoves
  obtain ⟨hd, -⟩ | ⟨v', S₁, hd, hanswered, rfl⟩ := process_ok_cases hS h
  · cases hd.symm.trans hv
  · obtain rfl : v' = v := Option.some.inj (hd.symm.trans hv)
    rw [undo_handled]
    cases hanswered with
    | moved _ _ hpushed => exact hpushed.undo_eq (hS.named d)
    | stayed hstayed => simp [hlooks, hsuccess] at hstayed

/-- Without a move to take back, an earlier move of the component is taken back. -/
theorem states_undo_of_not_moves [HoleOrder] (hS : S.Intact) (h : S.process d = (S', .ok a))
    (hmoves : ¬ Moves d a) :
    S'.undo.2.states = ((S.named d).stepBack (S.takenBack? d)).states := by
  rw [takenBack?]
  obtain ⟨hd, rfl⟩ | ⟨v, S₁, hd, hanswered, rfl⟩ := process_ok_cases hS h
  · rw [states_undo, hd]
    rfl
  · rw [undo_handled, hd]
    cases hanswered with
    | moved hv ha _ => exact absurd ⟨v, hd, hv, ha⟩ hmoves
    | stayed => rfl

/-- The name that a directive gives and the step back concern different components. -/
theorem states_stepBack_named_iff (S : Session) (d : Directive) :
    ((S.named d).stepBack (S.takenBack? d)).states = S.states ↔
      (S.named d).states = S.states ∧ (S.stepBack (S.takenBack? d)).states = S.states := by
  rcases S.named_eq_or_pushed d with heq | ⟨hname | hname, -⟩
  · rw [heq]
    exact (and_iff_right rfl).symm
  · have hback : S.takenBack? d = some .posit := by
      rw [takenBack?, hname]
      rfl
    rw [hback]
    simp [states, stepBack, onComponent, named, Verb.component]
  · have hback : S.takenBack? d = some .functorial := by
      rw [takenBack?, hname]
      rfl
    rw [hback]
    simp [states, stepBack, onComponent, named, Verb.component]

/-- **When undoing a directive restores all states**: when it has given no name that changes the
aliases, and either it has moved its component on, or an earlier step is taken back that changed
nothing. -/
theorem states_undo_process_iff [HoleOrder] (hS : S.Intact) (h : S.process d = (S', .ok a)) :
    S'.undo.2.states = S.states ↔ (S.named d).states = S.states ∧
      (Moves d a ∨ (S.stepBack (S.takenBack? d)).states = S.states) := by
  by_cases hmoves : Moves d a
  · simp [undo_of_moves hS h hmoves, hmoves]
  · rw [states_undo_of_not_moves hS h hmoves, states_stepBack_named_iff]
    simp [hmoves]

end Session

namespace Prover

variable {P P' : Prover} {fs : FileSystem} {line : String} {d : Directive} {a : Answer}

theorem process_of_ofLine? [HoleOrder] (hline : Directive.ofLine? line = some d) :
    process fs line P = P.direct d := by
  have hname : d.name ≠ "Using" := by
    rintro hname
    rw [Directive.ofLine?, Directive.parse_of_ofLine? hline] at hline
    simp [hname] at hline
  rw [process, runLine, Directive.parse_of_ofLine? hline]
  exact if_neg hname

/-- **When undoing a line restores the states of all components.** In every state that a prover can
be brought to, and for every directive that is answered, it does so exactly when the directive has
given no name that changes the aliases, and either it has moved its component on, or the step back
that is taken instead changes nothing. A directive that has moved its component on and has given no
name is taken back without a trace. -/
theorem undo_process_iff [HoleOrder] (hP : P.Reachable) (hline : Directive.ofLine? line = some d)
    (h : process fs line P = (P', .ok a)) :
    (P'.undo.2.session.states = P.session.states ↔
      (P.session.named d).states = P.session.states ∧ (Session.Moves d a ∨
        (P.session.stepBack (P.session.takenBack? d)).states = P.session.states)) ∧
    (Session.Moves d a → P.session.named d = P.session → P'.undo.2 = P) := by
  obtain ⟨S', hS', rfl⟩ :
      ∃ S', P.session.process d = (S', .ok a) ∧ P' = { P with session := S' } := by
    rw [process_of_ofLine? hline, direct] at h
    obtain ⟨rfl, ha⟩ := Prod.mk.inj h
    exact ⟨_, Prod.ext rfl ha, rfl⟩
  refine ⟨Session.states_undo_process_iff hP.intact hS', fun hmoves hnamed => ?_⟩
  have hundo := Session.undo_of_moves hP.intact hS' hmoves
  rw [hnamed] at hundo
  rw [undo]
  dsimp only
  rw [hundo]

theorem ofLine?_start : Directive.ofLine? "Start A" = some ⟨"Start", [.const "A"]⟩ :=
  Directive.ofLine?_of_readAll [⟨.symbol, "Start", 0⟩, ⟨.symbol, "A", 6⟩]
    (by cbv) (by cbv) (by cbv) (by decide)

theorem ofLine?_reduce : Directive.ofLine? "Reduce A" = some ⟨"Reduce", [.const "A"]⟩ :=
  Directive.ofLine?_of_readAll [⟨.symbol, "Reduce", 0⟩, ⟨.symbol, "A", 7⟩]
    (by cbv) (by cbv) (by cbv) (by decide)

theorem ofLine?_use : Directive.ofLine? "Use A" = some ⟨"Use", [.const "A"]⟩ :=
  Directive.ofLine?_of_readAll [⟨.symbol, "Use", 0⟩, ⟨.symbol, "A", 4⟩]
    (by cbv) (by cbv) (by cbv) (by decide)

theorem ofLine?_foo : Directive.ofLine? "Foo" = some ⟨"Foo", []⟩ :=
  Directive.ofLine?_of_readAll [⟨.symbol, "Foo", 0⟩] (by cbv) (by cbv) (by cbv) (by decide)

theorem session_started :
    ((initial "").run ["Start A"]).session = Session.started (.const "A") := by
  rw [session_run, List.filterMap_cons, ofLine?_start]
  rfl

/-- The start of a chain is taken back without a trace, also when there has been a chain before. -/
theorem undo_process_of_start :
    ((initial "").run ["Start A"]).Reachable ∧
      ∃ P' a, process ∅ "Start A" ((initial "").run ["Start A"]) = (P', .ok a) ∧
        P'.undo.2 = (initial "").run ["Start A"] := by
  have hP : ((initial "").run ["Start A"]).Reachable := .process (.initial "") ∅ "Start A"
  obtain ⟨a, ha, hsuccess⟩ : ∃ a, (process ∅ "Start A" ((initial "").run ["Start A"])).2 = .ok a ∧
      a.success = true := by
    rw [process_of_ofLine? ofLine?_start, direct, session_started]
    exact ⟨_, rfl, rfl⟩
  refine ⟨hP, _, a, Prod.ext rfl ha, ?_⟩
  exact (undo_process_iff hP ofLine?_start (Prod.ext rfl ha)).2 ⟨.start, rfl, rfl, hsuccess⟩ rfl

/-- After some lines, undoing another line that is answered does not restore all states. -/
def UndoneWrongly [HoleOrder] (lines : List String) (line : String) : Prop :=
  ∃ P' a, process ∅ line ((initial "").run lines) = (P', .ok a) ∧
    P'.undo.2.session.states ≠ ((initial "").run lines).session.states

theorem undoneWrongly_of_process [HoleOrder] {lines : List String} {S : Session}
    (hlines : ((initial "").run lines).session = S) (hline : Directive.ofLine? line = some d)
    (ha : (S.process d).2 = .ok a) (hstates : (S.process d).1.undo.2.states ≠ S.states) :
    UndoneWrongly lines line := by
  subst hlines
  refine ⟨(((initial "").run lines).direct d).1, a, ?_, hstates⟩
  rw [process_of_ofLine? hline]
  exact Prod.ext rfl ha

set_option maxRecDepth 4000 in
/-- The chain is lost when a directive is undone that only looks, that has failed, or that no
component knows. The name of an axiom is kept. -/
theorem undone_wrongly :
    UndoneWrongly ["Start A"] "Reduce A" ∧ UndoneWrongly ["Start A"] "Use A" ∧
      UndoneWrongly ["Start A"] "Foo" ∧ UndoneWrongly [] "Axiom n, A" := by
  have hposit : Directive.ofLine? "Axiom n, A" = some ⟨"Axiom", [.const "n", .const "A"]⟩ :=
    Directive.ofLine?_of_readAll
      [⟨.symbol, "Axiom", 0⟩, ⟨.symbol, "n", 6⟩, ⟨.comma, ",", 7⟩, ⟨.symbol, "A", 9⟩]
      (by cbv) (by cbv) (by cbv) (by decide)
  refine ⟨undoneWrongly_of_process session_started ofLine?_reduce rfl fun h => ?_,
    undoneWrongly_of_process session_started ofLine?_use rfl fun h => ?_,
    undoneWrongly_of_process session_started ofLine?_foo rfl fun h => ?_,
    undoneWrongly_of_process rfl hposit rfl fun h => ?_⟩
  · cases congrArg (fun states => states.2.1.isSome) h
  · cases congrArg (fun states => states.2.1.isSome) h
  · cases congrArg (fun states => states.2.1.isSome) h
  · cases congrArg (fun states => states.1.length) h

end Prover

end RuleProver
