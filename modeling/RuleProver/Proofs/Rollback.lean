import RuleProver.Proofs.Journal
import RuleProver.Proofs.Undo

/-!
# Rolling back to a marked moment

A mark is a place in each of six stacks: the directives that have been handled and the histories of
the five components. Rolling back cuts every stack at its place. This restores the marked moment as
long as what was in the stacks then is still below the places.

Directives only add to a stack. Rolling back to another mark may cut a stack below the place, but
then the place is forgotten with it, and the name no longer marks one everywhere. Undoing is
different: it takes states away and keeps the marks, so that a stack can become shorter than it was
at the mark and grow again with other states. Only then is something else restored.

## Main definitions

* `Session.Restored` — the states and the handled directives are those of another session
* `Session.Stands` — what was there at a marked moment stands in its place
* `Prover.StaysAbove` — undoing makes no stack shorter than it was at a moment

## Main results

* `History.Retains.rollback`, `Prover.retains_onEvent` — what was there at the mark stays below it
* `Prover.rollback_restores_iff` — when rolling back restores the marked moment
* `Prover.rolled_back_elsewhere` — runs after which it does not
-/

namespace RuleProver

/-! ## Names for places -/

section

variable {ι : Type} {marks : List (String × ι)} {name other : String} {i j : ι}

/-- A name that has just been given to a place stands for no other one. -/
theorem eq_of_mem_marked (h : (name, i) ∈ marks.filter (·.1 ≠ name) ++ [(name, j)]) : i = j := by
  rcases List.mem_append.mp h with hold | hnew
  · simp at hold
  · cases List.mem_singleton.mp hnew
    rfl

/-- Giving a name to a place adds nothing for other names. -/
theorem mem_of_mem_marked (hne : other ≠ name)
    (h : (name, i) ∈ marks.filter (·.1 ≠ other) ++ [(other, j)]) : (name, i) ∈ marks := by
  rcases List.mem_append.mp h with hold | hnew
  · exact List.mem_of_mem_filter hold
  · cases List.mem_singleton.mp hnew
    exact absurd rfl hne

end

/-! ## Histories -/

namespace History

variable {σ : Type} {h₀ h : History σ} {name other : String} {n : Int}

/-- Since a moment, a name has marked no other place than that of the moment. -/
structure Recalls (name : String) (h₀ h : History σ) : Prop where
  anchored : h.Anchored
  place : ∀ n, (name, n) ∈ h.marks → n = (h₀.depth : Int) - 1

/-- Moreover, as long as the name marks it, the states of the moment are still below it. -/
structure Retains (name : String) (h₀ h : History σ) : Prop extends Recalls name h₀ h where
  states : ∀ n, (name, n) ∈ h.marks → h₀.stack <:+ h.stack

/-- The state of a moment stands in its place, or at the end when the history has become shorter. -/
def Stands (h₀ h : History σ) : Prop :=
  (h.stack.drop (h.depth - h₀.depth)).head? = some h₀.current

theorem Anchored.retains_mark (hh : h.Anchored) (name : String) : Retains name h (h.mark name) where
  anchored := hh.mark name
  place _ hn := eq_of_mem_marked hn
  states _ _ := List.suffix_refl _

theorem marks_undo (h : History σ) : h.undo.2.marks = h.marks := by
  rw [undo]
  split <;> rfl

theorem undo_suffix (h : History σ) : h.undo.2.stack <:+ h.stack := by
  rw [undo]
  split
  · rename_i heq
    rw [heq]
    exact List.suffix_cons _ _
  · exact List.suffix_refl _

/-- Rolling back cuts the stack at the marked place, and forgets the places above. -/
theorem Anchored.rollback_of_lookup (hh : h.Anchored) (hn : h.marks.lookup name = some n) :
    (h.rollback name).2.stack = h.stack.drop (h.depth - (n + 1).toNat) ∧
      (h.rollback name).2.marks = h.marks.filter (·.2 ≤ n) := by
  obtain ⟨s, past, hdrop, hrollback⟩ := hh.rollback_eq hn
  rw [hrollback, hdrop]
  exact ⟨rfl, rfl⟩

theorem Anchored.marks_rollback_subset (hh : h.Anchored) (name : String) :
    (h.rollback name).2.marks ⊆ h.marks := by
  cases hn : h.marks.lookup name with
  | none => rw [rollback_of_lookup_eq_none hn]; exact List.Subset.refl _
  | some n =>
    rw [(hh.rollback_of_lookup hn).2]
    exact List.filter_subset_self _

theorem Recalls.push (hh : Recalls name h₀ h) (s : σ) : Recalls name h₀ (h.push s) :=
  ⟨hh.anchored.push s, hh.place⟩

theorem Recalls.undo (hh : Recalls name h₀ h) : Recalls name h₀ h.undo.2 :=
  ⟨hh.anchored.undo, fun n hn => hh.place n (h.marks_undo ▸ hn)⟩

theorem Recalls.mark (hh : Recalls name h₀ h) (hne : other ≠ name) :
    Recalls name h₀ (h.mark other) :=
  ⟨hh.anchored.mark other, fun n hn => hh.place n (mem_of_mem_marked hne hn)⟩

theorem Recalls.rollback (hh : Recalls name h₀ h) (other : String) :
    Recalls name h₀ (h.rollback other).2 :=
  ⟨hh.anchored.rollback other, fun n hn =>
    hh.place n (hh.anchored.marks_rollback_subset other hn)⟩

theorem Retains.push (hh : Retains name h₀ h) (s : σ) : Retains name h₀ (h.push s) :=
  ⟨hh.toRecalls.push s, fun n hn => (hh.states n hn).trans (List.suffix_cons _ _)⟩

/-- Undoing takes nothing away from below a place that the history still reaches. -/
theorem Retains.undo (hh : Retains name h₀ h) (hdepth : h₀.depth ≤ h.undo.2.depth) :
    Retains name h₀ h.undo.2 := by
  refine ⟨hh.toRecalls.undo, fun n hn => ?_⟩
  rw [marks_undo] at hn
  exact List.suffix_of_suffix_length_le (hh.states n hn) h.undo_suffix hdepth

theorem Retains.mark (hh : Retains name h₀ h) (hne : other ≠ name) :
    Retains name h₀ (h.mark other) :=
  ⟨hh.toRecalls.mark hne, fun n hn => hh.states n (mem_of_mem_marked hne hn)⟩

/-- **Rolling back takes nothing away from below a place that it leaves marked.** -/
theorem Retains.rollback (hh : Retains name h₀ h) (other : String) :
    Retains name h₀ (h.rollback other).2 := by
  refine ⟨hh.toRecalls.rollback other, fun n hn => ?_⟩
  have hmem := hh.anchored.marks_rollback_subset other hn
  cases hother : h.marks.lookup other with
  | none =>
    rw [rollback_of_lookup_eq_none hother]
    exact hh.states n hmem
  | some m =>
    obtain ⟨hstack, hmarks⟩ := hh.anchored.rollback_of_lookup hother
    rw [hmarks, List.mem_filter, decide_eq_true_eq] at hn
    have hle : n ≤ m := hn.2
    have hplace := hh.place n hmem
    have hlength := (hh.states n hmem).length_le
    rw [hstack]
    refine List.suffix_of_suffix_length_le (hh.states n hmem) (List.drop_suffix _ _) ?_
    rw [List.length_drop]
    simp only [depth] at hplace ⊢
    omega

theorem exists_mem_of_hasMark (hmark : h.hasMark name = true) :
    ∃ n, h.marks.lookup name = some n ∧ (name, n) ∈ h.marks := by
  obtain ⟨n, hn⟩ := Option.isSome_iff_exists.mp hmark
  exact ⟨n, hn, mem_of_lookup hn⟩

/-- Rolling back leads to the state of the moment exactly when this state stands in its place. -/
theorem Recalls.rollback_current_iff (hh : Recalls name h₀ h) (hmark : h.hasMark name = true) :
    (h.rollback name).2.current = h₀.current ↔ Stands h₀ h := by
  obtain ⟨n, hn, hmem⟩ := exists_mem_of_hasMark hmark
  have htop := (hh.anchored.rollback name).top
  rw [(hh.anchored.rollback_of_lookup hn).1, hh.place n hmem, Int.sub_add_cancel,
    Int.toNat_natCast] at htop
  rw [Stands, htop, Option.some_inj]

theorem Retains.stands (hh : Retains name h₀ h) (hh₀ : h₀.Anchored)
    (hmark : h.hasMark name = true) : Stands h₀ h := by
  obtain ⟨n, -, hmem⟩ := exists_mem_of_hasMark hmark
  rw [Stands, depth, depth, ← List.suffix_iff_eq_drop.mp (hh.states n hmem)]
  exact hh₀.top

end History

/-! ## Sessions -/

namespace Session

variable {S₀ S : Session} {name other : String} {d : Directive}

/-- The states of all components and the handled directives are those of another session. -/
def Restored (S₀ S : Session) : Prop := S.states = S₀.states ∧ S.handled = S₀.handled

/-- What a session has handled, and its states, stand in their places in another one. -/
structure Stands (S₀ S : Session) : Prop where
  handled : S.handled.take S₀.handled.length = S₀.handled
  states : Compares History.Stands S₀ S

/-- No stack of a session is shorter than that of another one. -/
structure Reaches (S₀ S : Session) : Prop where
  handled : S₀.handled.length ≤ S.handled.length
  states : Compares (fun h₀ h => h₀.depth ≤ h.depth) S₀ S

/-- Since a moment, a name has marked no other places than those of the moment. -/
structure Recalls (name : String) (S₀ S : Session) : Prop where
  intact : S.Intact
  place : ∀ n, (name, n) ∈ S.marks → n = S₀.handled.length
  states : Compares (History.Recalls name) S₀ S

/-- Moreover, as long as the name marks a place, what was there at the moment is still below it. -/
structure Retains (name : String) (S₀ S : Session) : Prop extends Recalls name S₀ S where
  handled : ∀ n, (name, n) ∈ S.marks → S₀.handled <+: S.handled
  retains : Compares (History.Retains name) S₀ S

/-- Changes the histories of all components. -/
def onAll (S : Session) (f : {σ : Type} → History σ → History σ) : Session :=
  { S with
    aliases := f S.aliases
    chain := f S.chain
    functorials := f S.functorials
    numerals := f S.numerals
    goals := f S.goals }

theorem Compares.onAll {R R' : {σ : Type} → History σ → History σ → Prop}
    {f : {σ : Type} → History σ → History σ}
    (hf : ∀ {σ : Type} {h₀ h : History σ}, R h₀ h → R' h₀ (f h)) (h : Compares R S₀ S) :
    Compares R' S₀ (S.onAll f) :=
  ⟨hf h.aliases, hf h.chain, hf h.functorials, hf h.numerals, hf h.goals⟩

theorem Intact.foldl_onHistory_order (hS : S.Intact) (S' : Session)
    (f : {σ : Type} → History σ → History σ) :
    S.order.foldl (fun S st => S.onHistory f st) S' = S'.onAll f := by
  rw [hS.order]
  rfl

theorem Intact.mark_eq (hS : S.Intact) (name : String) :
    S.mark name = { S.onAll (·.mark name) with
      marks := S.marks.filter (·.1 ≠ name) ++ [(name, S.handled.length)] } :=
  hS.foldl_onHistory_order _ _

/-- Rolling back is refused, or every stack is cut at its place. -/
theorem Intact.rollback_cases (hS : S.Intact) (name : String) :
    S.rollback name = (false, S) ∨ ∃ n, S.marks.lookup name = some n ∧
      (∀ c, S.ofComponent (·.hasMark name) c = true) ∧
      S.rollback name = (true, { S.onAll (fun h => (h.rollback name).2) with
        handled := S.handled.take n
        marks := S.marks.filter (·.2 ≤ n) }) := by
  rw [Session.rollback]
  cases hn : S.marks.lookup name with
  | none => exact .inl rfl
  | some n =>
    dsimp only
    rw [hS.foldl_onHistory_order]
    split
    · rename_i hall
      refine .inr ⟨n, rfl, fun c => ?_, rfl⟩
      refine List.all_eq_true.mp hall (.own c) ?_
      rw [hS.order]
      cases c <;> decide
    · exact .inl rfl

theorem retains_mark (hS : S.Intact) (name : String) : Retains name S (S.mark name) := by
  have hretains : Compares (History.Retains name) S (S.mark name) := by
    rw [hS.mark_eq]
    exact ⟨hS.aliases.retains_mark name, hS.chain.retains_mark name,
      hS.functorials.retains_mark name, hS.numerals.retains_mark name, hS.goals.retains_mark name⟩
  refine ⟨⟨hS.mark name, fun n hn => ?_, ?_⟩, fun n hn => ?_, hretains⟩
  · rw [hS.mark_eq] at hn
    exact eq_of_mem_marked hn
  · exact ⟨hretains.aliases.toRecalls, hretains.chain.toRecalls, hretains.functorials.toRecalls,
      hretains.numerals.toRecalls, hretains.goals.toRecalls⟩
  · rw [hS.mark_eq]
    exact List.prefix_refl _

namespace Recalls

theorem process [HoleOrder] (h : Recalls name S₀ S) (d : Directive) :
    Recalls name S₀ (S.process d).1 := by
  have hprocessed := processed h.intact.order d
  refine ⟨hprocessed.intact h.intact, fun n hn => ?_, ?_⟩
  · rw [(hprocessed.bookkeeping h.intact).2.1] at hn
    exact h.place n hn
  · exact h.states.processed (fun s h => h.push s) hprocessed h.intact

theorem undo (h : Recalls name S₀ S) : Recalls name S₀ S.undo.2 := by
  refine ⟨h.intact.undo, fun n hn => ?_, ?_⟩
  · rw [S.bookkeeping_undo.2.1] at hn
    exact h.place n hn
  · exact h.states.undo fun h => h.undo

theorem mark (h : Recalls name S₀ S) (hne : other ≠ name) : Recalls name S₀ (S.mark other) := by
  have hintact := h.intact.mark other
  rw [h.intact.mark_eq] at hintact ⊢
  refine ⟨hintact, fun n hn => h.place n (mem_of_mem_marked hne hn), ?_⟩
  exact { h.states.onAll (f := (·.mark other)) (fun h => h.mark hne) with }

theorem rollback (h : Recalls name S₀ S) (other : String) :
    Recalls name S₀ (S.rollback other).2 := by
  have hintact := h.intact.rollback other
  rcases h.intact.rollback_cases other with heq | ⟨n, -, -, heq⟩
  · rw [heq]
    exact h
  · rw [heq] at hintact ⊢
    refine ⟨hintact, fun m hm => h.place m (List.mem_of_mem_filter hm), ?_⟩
    exact { h.states.onAll (f := fun h => (h.rollback other).2) (fun h => h.rollback other) with }

end Recalls

namespace Retains

theorem process [HoleOrder] (h : Retains name S₀ S) (d : Directive) :
    Retains name S₀ (S.process d).1 := by
  have hprocessed := processed h.intact.order d
  obtain ⟨-, hmarks, hhandled⟩ := hprocessed.bookkeeping h.intact
  refine ⟨h.toRecalls.process d, fun n hn => ?_, ?_⟩
  · rw [hmarks] at hn
    exact (h.handled n hn).trans hhandled
  · exact h.retains.processed (fun s h => h.push s) hprocessed h.intact

/-- Undoing keeps what was there at the mark, as long as no stack becomes shorter than it was. -/
theorem undo (h : Retains name S₀ S) (hreaches : S₀.Reaches S.undo.2) :
    Retains name S₀ S.undo.2 := by
  obtain ⟨-, hmarks, hhandled⟩ := S.bookkeeping_undo
  refine ⟨h.toRecalls.undo, fun n hn => ?_, ?_⟩
  · rw [hmarks] at hn
    refine List.prefix_of_prefix_length_le (h.handled n hn) ?_ hreaches.handled
    rw [hhandled]
    exact List.dropLast_prefix _
  · exact h.retains.undo_of_compares (fun h hdepth => h.undo hdepth) hreaches.states

theorem mark (h : Retains name S₀ S) (hne : other ≠ name) : Retains name S₀ (S.mark other) := by
  have hrecalls := h.toRecalls.mark hne
  rw [h.intact.mark_eq] at hrecalls ⊢
  refine ⟨hrecalls, fun n hn => h.handled n (mem_of_mem_marked hne hn), ?_⟩
  exact { h.retains.onAll (f := (·.mark other)) (fun h => h.mark hne) with }

theorem rollback (h : Retains name S₀ S) (other : String) :
    Retains name S₀ (S.rollback other).2 := by
  have hrecalls := h.toRecalls.rollback other
  rcases h.intact.rollback_cases other with heq | ⟨n, -, -, heq⟩
  · rw [heq]
    exact h
  · rw [heq] at hrecalls ⊢
    refine ⟨hrecalls, fun m hm => ?_, ?_⟩
    · obtain ⟨hmem, hle⟩ := List.mem_filter.mp hm
      rw [decide_eq_true_eq] at hle
      exact List.prefix_take_iff.mpr ⟨h.handled m hmem, h.place m hmem ▸ hle⟩
    · have hretains := h.retains.onAll (f := fun h => (h.rollback other).2) (·.rollback other)
      exact { hretains with }

end Retains

theorem states_eq_iff :
    S.states = S₀.states ↔ Compares (fun h₀ h => h.current = h₀.current) S₀ S := by
  constructor
  · intro h
    simp only [states, Prod.mk.injEq] at h
    exact ⟨h.1, h.2.1, h.2.2.1, rfl, h.2.2.2.2⟩
  · rintro ⟨haliases, hchain, hfunctorials, hnumerals, hgoals⟩
    rw [states, haliases, hchain, hfunctorials, hnumerals, hgoals]
    rfl

/-- **Rolling back restores what stands in its place.** -/
theorem Recalls.restored_iff (h : Recalls name S₀ S) {S' : Session}
    (hback : S.rollback name = (true, S')) : S₀.Restored S' ↔ S₀.Stands S := by
  rcases h.intact.rollback_cases name with heq | ⟨n, hn, hmarked, heq⟩
  · cases heq.symm.trans hback
  · obtain rfl := (Prod.mk.inj (heq.symm.trans hback)).2
    obtain rfl := h.place n (mem_of_lookup hn)
    have haliases := h.states.aliases.rollback_current_iff (hmarked .alias)
    have hchain := h.states.chain.rollback_current_iff (hmarked .chain)
    have hfunctorials := h.states.functorials.rollback_current_iff (hmarked .functorial)
    have hnumerals := h.states.numerals.rollback_current_iff (hmarked .numeral)
    have hgoals := h.states.goals.rollback_current_iff (hmarked .goal)
    rw [Restored, states_eq_iff]
    constructor
    · rintro ⟨hstates, hhandled⟩
      exact ⟨hhandled, haliases.mp hstates.aliases, hchain.mp hstates.chain,
        hfunctorials.mp hstates.functorials, hnumerals.mp hstates.numerals,
        hgoals.mp hstates.goals⟩
    · rintro ⟨hhandled, hstates⟩
      exact ⟨⟨haliases.mpr hstates.aliases, hchain.mpr hstates.chain,
        hfunctorials.mpr hstates.functorials, hnumerals.mpr hstates.numerals,
        hgoals.mpr hstates.goals⟩, hhandled⟩

theorem Retains.stands (h : Retains name S₀ S) (hS₀ : S₀.Intact) {S' : Session}
    (hback : S.rollback name = (true, S')) : S₀.Stands S := by
  rcases h.intact.rollback_cases name with heq | ⟨n, hn, hmarked, -⟩
  · cases heq.symm.trans hback
  · have hprefix := h.handled n (mem_of_lookup hn)
    exact ⟨(List.prefix_iff_eq_take.mp hprefix).symm,
      h.retains.aliases.stands hS₀.aliases (hmarked .alias),
      h.retains.chain.stands hS₀.chain (hmarked .chain),
      h.retains.functorials.stands hS₀.functorials (hmarked .functorial),
      h.retains.numerals.stands hS₀.numerals (hmarked .numeral),
      h.retains.goals.stands hS₀.goals (hmarked .goal)⟩

end Session

/-! ## Runs -/

namespace Prover

variable {S₀ : Session} {P : Prover} {es : List Event} {e : Event} {name : String}

/-- Whenever a directive is undone, no stack becomes shorter than it was in a session. -/
def StaysAbove [HoleOrder] (S₀ : Session) (P : Prover) : List Event → Prop
  | [] => True
  | e :: es => (e = .undo → S₀.Reaches (P.onEvent e).session) ∧ StaysAbove S₀ (P.onEvent e) es

theorem recalls_onEvent [HoleOrder] (h : Session.Recalls name S₀ P.session) (he : e ≠ .mark name) :
    Session.Recalls name S₀ (P.onEvent e).session := by
  cases e with
  | direct d => exact h.process d
  | undo => exact h.undo
  | mark other => exact h.mark fun hname => he (hname ▸ rfl)
  | rollback other => exact h.rollback other
  | enter | leave | finish => exact h

theorem recalls_replay [HoleOrder] (h : Session.Recalls name S₀ P.session) (hes : .mark name ∉ es) :
    Session.Recalls name S₀ (P.replay es).session := by
  induction es generalizing P with
  | nil => exact h
  | cons e es ih =>
    obtain ⟨he, hes⟩ := not_or.mp (mt List.mem_cons.mpr hes)
    exact ih (recalls_onEvent h (Ne.symm he)) hes

/-- **What was there at the mark stays below it**, unless a directive is undone that was there. -/
theorem retains_onEvent [HoleOrder] (h : Session.Retains name S₀ P.session) (he : e ≠ .mark name)
    (hundo : e = .undo → S₀.Reaches (P.onEvent e).session) :
    Session.Retains name S₀ (P.onEvent e).session := by
  cases e with
  | direct d => exact h.process d
  | undo => exact h.undo (hundo rfl)
  | mark other => exact h.mark fun hname => he (hname ▸ rfl)
  | rollback other => exact h.rollback other
  | enter | leave | finish => exact h

theorem retains_replay [HoleOrder] (h : Session.Retains name S₀ P.session) (hes : .mark name ∉ es)
    (habove : StaysAbove S₀ P es) : Session.Retains name S₀ (P.replay es).session := by
  induction es generalizing P with
  | nil => exact h
  | cons e es ih =>
    obtain ⟨he, hes⟩ := not_or.mp (mt List.mem_cons.mpr hes)
    exact ih (retains_onEvent h (Ne.symm he) habove.1) hes habove.2

/-- **When rolling back restores the marked moment.** In a run of lines, undoing, marking and
rolling back, a moment is marked with a name, which is not used again for another mark. Where
rolling back to the name succeeds, the states of all components and the handled directives are those
of the marked moment exactly when these still stand in their places. They do, if no stack has been
made shorter by undoing than it was then. -/
theorem rollback_restores_iff [HoleOrder] {base : String} {before after : List Event}
    {Q Q' : Prover}
    (hrun : Runs (initial base) (before ++ .mark name :: after) Q) (hname : .mark name ∉ after)
    (hback : Q.rollback name = (true, Q')) :
    let P := (initial base).replay before
    (P.session.Restored Q'.session ↔ P.session.Stands Q.session) ∧
      (StaysAbove P.session (P.mark name) after → P.session.Restored Q'.session) := by
  intro P
  have hP : P.session.Intact := intact_replay Session.intact_initial before
  have hmark := Session.retains_mark hP name
  obtain rfl : (P.mark name).replay after = Q := by
    have hreplay := hrun.replay_eq
    rw [replay_append] at hreplay
    exact hreplay
  obtain ⟨S', hS', rfl⟩ : ∃ S', ((P.mark name).replay after).session.rollback name = (true, S') ∧
      Q' = { (P.mark name).replay after with session := S' } := by
    rw [rollback] at hback
    obtain ⟨htrue, rfl⟩ := Prod.mk.inj hback
    exact ⟨_, Prod.ext htrue rfl, rfl⟩
  have hiff := (recalls_replay (P := P.mark name) hmark.toRecalls hname).restored_iff hS'
  refine ⟨hiff, fun habove => hiff.mpr ?_⟩
  exact (retains_replay (P := P.mark name) hmark hname habove).stands hP hS'

theorem ofLine?_start_b : Directive.ofLine? "Start B" = some ⟨"Start", [.const "B"]⟩ :=
  Directive.ofLine?_of_readAll [⟨.symbol, "Start", 0⟩, ⟨.symbol, "B", 6⟩]
    (by cbv) (by cbv) (by cbv) (by decide)

/-- A chain is started from a constant. -/
def starting (c : String) : Event := .direct ⟨"Start", [.const c]⟩ .succeeded

/-- A line is undone that has been carried out after the mark, and another one is carried out. -/
theorem rollback_restores_after_undo :
    let before := [starting "A"]
    let after := [starting "B", .undo, starting "B"]
    Runs (initial "") (before ++ .mark "p" :: after)
      ((initial "").replay (before ++ .mark "p" :: after)) ∧
    ∃ Q', ((initial "").replay (before ++ .mark "p" :: after)).rollback "p" = (true, Q') ∧
      ((initial "").replay before).session.Restored Q'.session := by
  intro before after
  have ha := Directive.parse_of_ofLine? ofLine?_start
  have hb := Directive.parse_of_ofLine? ofLine?_start_b
  have hrun : Runs (initial "") (before ++ .mark "p" :: after)
      ((initial "").replay (before ++ .mark "p" :: after)) :=
    ((((Runs.start.direct ha (by decide) rfl).mark "p").direct hb (by decide) rfl).undo).direct hb
      (by decide) rfl
  refine ⟨hrun, _, Prod.ext rfl rfl, ?_⟩
  refine (rollback_restores_iff hrun (by simp [after, starting]) (Prod.ext rfl rfl)).2 ?_
  exact ⟨nofun, fun _ => ⟨by decide, by decide, by decide, by decide, by decide, by decide⟩, nofun,
    trivial⟩

/-- After some events, rolling back to a mark with others since then succeeds, and does not restore
the marked moment. -/
def RolledBackElsewhere [HoleOrder] (before : List Event) (name : String) (after : List Event) :
    Prop :=
  ∃ Q Q', Runs (initial "") (before ++ .mark name :: after) Q ∧ .mark name ∉ after ∧
    Q.rollback name = (true, Q') ∧
    ¬ ((initial "").replay before).session.Restored Q'.session

/-- Another chain is restored when the one of the mark has been undone, and no chain when a
directive has been undone that only looks. -/
theorem rolled_back_elsewhere :
    RolledBackElsewhere [starting "A"] "p" [.undo, starting "B"] ∧
      RolledBackElsewhere [starting "A"] "p"
        [.direct ⟨"Reduce", [.const "A"]⟩ .succeeded, .undo] := by
  have ha := Directive.parse_of_ofLine? ofLine?_start
  have hb := Directive.parse_of_ofLine? ofLine?_start_b
  have hreduce := Directive.parse_of_ofLine? ofLine?_reduce
  have hstart : Runs (initial "") [] (initial "") := .start
  have hmarked := (hstart.direct ha (by decide) rfl).mark "p"
  refine ⟨⟨_, _, hmarked.undo.direct hb (by decide) rfl, by simp [starting], Prod.ext rfl rfl, ?_⟩,
    ⟨_, _, (hmarked.direct hreduce (by decide) rfl).undo, by simp,
      Prod.ext rfl rfl, ?_⟩⟩
  · rintro ⟨hstates, -⟩
    have hchain : some (Expr.const "B" : Object) = some (.const "A") :=
      congrArg (fun states => states.2.1.map Chain.unreduced) hstates
    simp at hchain
  · rintro ⟨hstates, -⟩
    cases congrArg (fun states => states.2.1.isSome) hstates

end Prover

end RuleProver
