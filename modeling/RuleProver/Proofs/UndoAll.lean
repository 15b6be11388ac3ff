import RuleProver.Proofs.Journal
import RuleProver.Proofs.Undo

/-!
# Undoing everything

A single step back may take back another step than the one it is meant for: a directive that fails
or only looks takes no step forward and is recorded all the same. In the end this does no harm. In
each component there are at most as many steps to take back as there are recorded directives for
this component, and there is nothing to take back at the first state. When no record is left, every
component is back at its first state, and the prover is the new one again.

Two things would leave a step without a record: a directive that breaks off after it has moved its
component on, and the name that an axiom or a functorial rule is given.

## Main definitions

* `Session.Balanced` — no component has taken more steps than are recorded for it
* `Event.Recorded` — an event that leaves no step without a record
* `Prover.undone` — what undoing a number of times leads to

## Main results

* `Session.Balanced.process`, `Session.Balanced.undo` — directives and undoing keep the balance
* `Session.Balanced.eq_initial` — without a record, a balanced session is the new one
* `Prover.undone_eq_initial` — undoing everything leads back to the start
-/

namespace RuleProver

/-! ## Histories -/

namespace History

variable {σ : Type} {h₀ h : History σ} {s : σ}

/-- A history has the same first state and the same marks as another one. -/
structure SharesStart (h₀ h : History σ) : Prop where
  anchored : h.Anchored
  first : h.stack.getLast? = h₀.stack.getLast?
  marks : h.marks = h₀.marks

theorem depth_undo_le (h : History σ) : h.undo.2.depth ≤ max 1 (h.depth - 1) := by
  rw [undo, depth, depth]
  rcases hstack : h.stack with _ | ⟨s, _ | ⟨s', past⟩⟩
  · simp [hstack]
  · simp [hstack]
  · simp

theorem SharesStart.push (hh : SharesStart h₀ h) (s : σ) : SharesStart h₀ (h.push s) := by
  obtain ⟨past, hpast⟩ := hh.anchored.exists_past
  refine ⟨hh.anchored.push s, ?_, hh.marks⟩
  rw [← hh.first, History.push, hpast]
  exact List.getLast?_cons_cons

theorem SharesStart.undo (hh : SharesStart h₀ h) : SharesStart h₀ h.undo.2 := by
  have hanchored := hh.anchored.undo
  rw [History.undo] at hanchored ⊢
  split
  · rename_i heq
    rw [heq] at hanchored
    refine ⟨hanchored, ?_, hh.marks⟩
    rw [← hh.first, heq]
    exact List.getLast?_cons_cons.symm
  · exact hh

/-- At its first state, a history that has started like a new one is the new one. -/
theorem SharesStart.eq_ofState (hh : SharesStart (ofState s) h) (hdepth : h.depth ≤ 1) :
    h = ofState s := by
  obtain ⟨past, hpast⟩ := hh.anchored.exists_past
  have hfirst := hh.first
  have hmarks := hh.marks
  cases h with
  | mk current stack marks =>
    obtain rfl : stack = current :: past := hpast
    obtain rfl : past = [] := List.length_eq_zero_iff.mp (Nat.le_zero.mp (Nat.le_of_lt_succ hdepth))
    obtain rfl : current = s := Option.some.inj hfirst
    obtain rfl : marks = [] := hmarks
    rfl

end History

namespace Session

variable {S S' : Session} {d : Directive} {c : Component} {a : Answer}

/-- The number of recorded directives for a component. -/
def records (S : Session) (c : Component) : Nat := S.handled.countP (·.component = c)

/-- No component has taken more steps than there are records of directives for it, and everything
else is as in a new session. -/
structure Balanced (S : Session) : Prop where
  intact : S.Intact
  spares : S.spares = initial.spares
  marks : S.marks = []
  start : Compares History.SharesStart initial S
  depth_le : ∀ c, S.ofComponent (·.depth) c ≤ 1 + S.records c

theorem Compares.sharesStart (hS : S.Intact) : Compares History.SharesStart S S :=
  ⟨⟨hS.aliases, rfl, rfl⟩, ⟨hS.chain, rfl, rfl⟩, ⟨hS.functorials, rfl, rfl⟩,
    ⟨hS.numerals, rfl, rfl⟩, ⟨hS.goals, rfl, rfl⟩⟩

theorem balanced_initial : initial.Balanced where
  intact := intact_initial
  spares := rfl
  marks := rfl
  start := .sharesStart intact_initial
  depth_le c := by cases c <;> exact Nat.le_refl 1

theorem Pushed.depth_eq (h : Pushed S c S') (c' : Component) :
    S'.ofComponent (·.depth) c' = S.ofComponent (·.depth) c' + if c = c' then 1 else 0 := by
  cases h <;> cases c' <;> rfl

theorem Pushed.records_eq (h : Pushed S c S') (c' : Component) : S'.records c' = S.records c' := by
  cases h <;> rfl

theorem records_concat (S : Session) (vs : List Verb) (v : Verb) (c : Component) :
    { S with handled := vs ++ [v] }.records c =
      { S with handled := vs }.records c + if v.component = c then 1 else 0 := by
  rw [records, records, List.countP_append, List.countP_singleton]
  simp only [decide_eq_true_eq]

theorem ofComponent_onComponent {β : Type} (S : Session) (f : {σ : Type} → History σ → History σ)
    (g : {σ : Type} → History σ → β) (c c' : Component) :
    (S.onComponent f c).ofComponent g c' =
      if c = c' then S.ofComponent (fun h => g (f h)) c' else S.ofComponent g c' := by
  cases c <;> cases c' <;> rfl

theorem ofComponent_depth_undo_le (S : Session) (c : Component) :
    S.ofComponent (fun h => h.undo.2.depth) c ≤ max 1 (S.ofComponent (·.depth) c - 1) := by
  cases c <;> exact History.depth_undo_le _

theorem records_onComponent (S : Session) (f : {σ : Type} → History σ → History σ)
    (c c' : Component) : (S.onComponent f c).records c' = S.records c' := by
  rw [records, (S.bookkeeping_onComponent f c).2.2]
  rfl

namespace Balanced

/-- **A directive that is answered and gives no name keeps the balance**: a step that it takes is
recorded. -/
theorem process [HoleOrder] (h : S.Balanced) (hd : ¬ GivesName d)
    (hprocess : S.process d = (S', .ok a)) :
    S'.Balanced := by
  have hprocessed := processed h.intact.order d
  rw [hprocess] at hprocessed
  obtain ⟨hspares, hmarks, -⟩ := hprocessed.bookkeeping h.intact
  refine ⟨hprocessed.intact h.intact, hspares.trans h.spares, hmarks.trans h.marks,
    h.start.processed (fun s h => h.push s) hprocessed h.intact, fun c => ?_⟩
  have hle := h.depth_le c
  have hcases := process_ok_cases h.intact hprocess
  rw [S.named_of_not_givesName hd] at hcases
  obtain ⟨-, rfl⟩ | ⟨v, S₁, -, hanswered, rfl⟩ := hcases
  · exact hle
  · rw [records_concat]
    change S₁.ofComponent (·.depth) c ≤ 1 + (S₁.records c + if v.component = c then 1 else 0)
    cases hanswered with
    | moved _ _ hpushed =>
      rw [hpushed.depth_eq c, hpushed.records_eq c]
      omega
    | stayed => omega

/-- **Undoing keeps the balance**: the record that goes is one for the component that steps back. -/
theorem undo (h : S.Balanced) : S.undo.2.Balanced := by
  obtain ⟨hspares, hmarks, -⟩ := S.bookkeeping_undo
  refine ⟨h.intact.undo, hspares.trans h.spares, hmarks.trans h.marks,
    h.start.undo (fun h => h.undo), fun c => ?_⟩
  have hle := h.depth_le c
  obtain ⟨-, heq⟩ | ⟨v, hlast, heq⟩ := S.undo_cases
  · rw [heq]
    exact hle
  · obtain ⟨vs, hvs⟩ := List.getLast?_eq_some_iff.mp hlast
    have hrecords := S.records_concat vs v c
    rw [← hvs] at hrecords
    rw [heq, hvs, List.dropLast_concat, ofComponent_onComponent, records_onComponent]
    split
    · rename_i hc
      have hback := { S with handled := vs }.ofComponent_depth_undo_le c
      rw [if_pos hc] at hrecords
      change S.records c = _ at hrecords
      change _ ≤ max 1 (S.ofComponent (·.depth) c - 1) at hback
      omega
    · rename_i hc
      rw [if_neg hc] at hrecords
      exact Nat.le_trans hle (Nat.add_le_add_left (Nat.le_of_eq hrecords) 1)

/-- Without a record, a balanced session is the new one. -/
theorem eq_initial (h : S.Balanced) (hhandled : S.handled = []) : S = initial := by
  have hdepth : ∀ c, S.ofComponent (·.depth) c ≤ 1 := by
    intro c
    have hle := h.depth_le c
    rw [records, hhandled] at hle
    exact hle
  have haliases := h.start.aliases.eq_ofState (hdepth .alias)
  have hchain := h.start.chain.eq_ofState (hdepth .chain)
  have hfunctorials := h.start.functorials.eq_ofState (hdepth .functorial)
  have hnumerals := h.start.numerals.eq_ofState (hdepth .numeral)
  have hgoals := h.start.goals.eq_ofState (hdepth .goal)
  have horder := h.intact.order
  have hchains := h.intact.chainsPremises
  have hspares := h.spares
  have hmarks := h.marks
  cases S with
  | mk order spares chainsPremises aliases chain functorials numerals goals handled marks =>
    simp only at *
    subst_vars
    rfl

end Balanced

end Session

/-! ## Runs -/

/-- An event that leaves no step without a record: undoing, or a directive that is answered and
gives no name. -/
def Event.Recorded : Event → Prop
  | .direct d ending => ending ≠ .brokenOff ∧ ¬ Session.GivesName d
  | .undo => True
  | _ => False

namespace Prover

variable {base : String} {P : Prover} {es : List Event} {e : Event}

/-- The session is balanced, and everything else is as in a new prover. -/
def Balanced (base : String) (P : Prover) : Prop :=
  P.session.Balanced ∧ P = { initial base with session := P.session }

theorem Balanced.undo (h : P.Balanced base) : P.undo.2.Balanced base := by
  refine ⟨h.1.undo, ?_⟩
  rw [h.2]
  rfl

theorem Balanced.onEvent [HoleOrder] (h : P.Balanced base) (he : P.Permits e)
    (hrecorded : e.Recorded) :
    (P.onEvent e).Balanced base := by
  cases e with
  | direct d ending =>
    obtain ⟨hending, hd⟩ := hrecorded
    obtain ⟨a, ha⟩ : ∃ a, (P.session.process d).2 = .ok a := by
      cases hr : (P.session.process d).2 with
      | ok a => exact ⟨a, rfl⟩
      | error f =>
        refine absurd ?_ hending
        rw [← he]
        exact congrArg Ending.of hr
    refine ⟨h.1.process hd (Prod.ext rfl ha), ?_⟩
    rw [h.2]
    rfl
  | undo => exact h.undo
  | mark | rollback | enter | leave | finish => exact absurd hrecorded id

theorem Balanced.replay [HoleOrder] (h : P.Balanced base) (hes : P.Proper es)
    (hrecorded : ∀ e ∈ es, e.Recorded) : (P.replay es).Balanced base := by
  induction es generalizing P with
  | nil => exact h
  | cons e es ih =>
    obtain ⟨he, hrest⟩ := List.forall_mem_cons.mp hrecorded
    exact ih (h.onEvent hes.1 he) hes.2 hrest

/-- What undoing a number of times leads to. -/
def undone (P : Prover) : Nat → Prover
  | 0 => P
  | k + 1 => (P.undone k).undo.2

theorem Balanced.undone (h : P.Balanced base) (k : Nat) : (P.undone k).Balanced base := by
  induction k with
  | zero => exact h
  | succ k ih => exact ih.undo

theorem length_handled_undone (P : Prover) (k : Nat) :
    (P.undone k).session.handled.length = P.session.handled.length - k := by
  induction k with
  | zero => rfl
  | succ k ih =>
    have hundo := (P.undone k).session.bookkeeping_undo.2.2
    change (P.undone k).session.undo.2.handled.length = _
    rw [hundo, List.length_dropLast, ih, Nat.sub_sub]

theorem undo_eq_none_iff (P : Prover) : P.undo.1 = none ↔ P.session.handled = [] := by
  change P.session.undo.1 = none ↔ _
  obtain ⟨hhandled, heq⟩ | ⟨v, hlast, heq⟩ := P.session.undo_cases
  · simp [heq, hhandled]
  · have hne : P.session.handled ≠ [] := fun hnil => by simp [hnil] at hlast
    simp [heq, hne]

/-- **Undoing everything leads back to the start.** In every run of lines and undoing in which all
directives are answered and give no name, whether they succeed or fail, undoing reports that there
is nothing to undo after as many times as directives are recorded and not before, and the prover is
then the new one: every component is in its first state, with no other state in its history. -/
theorem undone_eq_initial [HoleOrder] (hrun : Runs (initial base) es P)
    (hes : ∀ e ∈ es, e.Recorded) (k : Nat) :
    ((P.undone k).undo.1 = none ↔ P.session.handled.length ≤ k) ∧
      ((P.undone k).undo.1 = none → P.undone k = initial base) := by
  have hstart : (initial base).Balanced base := ⟨Session.balanced_initial, rfl⟩
  have hbalanced : P.Balanced base := hrun.replay_eq ▸ hstart.replay hrun.proper hes
  constructor
  · rw [undo_eq_none_iff, ← List.length_eq_zero_iff, length_handled_undone, Nat.sub_eq_zero_iff_le]
  · intro hnone
    obtain ⟨hsession, heq⟩ := hbalanced.undone k
    rw [heq, hsession.eq_initial ((undo_eq_none_iff _).mp hnone)]
    rfl

/-- The step back meant for a directive that only looks takes the chain away, and the next directive
fails for lack of one. Undoing twice leads back to the start. -/
theorem undone_eq_initial_of_failure :
    let es : List Event := [.direct ⟨"Start", [.const "A"]⟩ .succeeded,
      .direct ⟨"Reduce", [.const "A"]⟩ .succeeded, .undo, .direct ⟨"Use", [.const "A"]⟩ .failed]
    ∃ P, Runs (initial "") es P ∧ (∀ e ∈ es, e.Recorded) ∧ P.session.handled = [.start, .use] ∧
      (P.undone 2).undo.1 = none ∧ P.undone 2 = initial "" := by
  intro es
  have hstart : Runs (initial "") [] (initial "") := .start
  have hstarted := hstart.direct (Directive.parse_of_ofLine? ofLine?_start) (by decide) rfl
  have hreduced := hstarted.direct (Directive.parse_of_ofLine? ofLine?_reduce) (by decide) rfl
  have hrun : Runs (initial "") es _ :=
    hreduced.undo.direct (Directive.parse_of_ofLine? ofLine?_use) (by decide) rfl
  have hes : ∀ e ∈ es, e.Recorded := by simp [es, Event.Recorded, Session.GivesName]
  obtain ⟨hnone, hinitial⟩ := undone_eq_initial hrun hes 2
  exact ⟨_, hrun, hes, rfl, hnone.mpr (Nat.le_refl 2), hinitial (hnone.mpr (Nat.le_refl 2))⟩

end Prover

end RuleProver
