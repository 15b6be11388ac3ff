import Mathlib.Data.List.Infix
import RuleProver.Proofs.Rollback

/-!
# Rolling back exactly

A history can be moved on, undone, marked, rolled back and cut down. Each of these either puts one
state on the stack or takes states from its top, and never the last one. So the first state stays at
the bottom for ever, and in general whatever is at the bottom of the stack stays there, as long as
the stack does not become shorter than that.

The marks follow the stack, each in its own way: undoing keeps all of them, rolling back drops those
above the place that is returned to, and cutting down drops those above the cut. None of this drops
the mark of a place that the stack still reaches. So as long as the stack does not become shorter
than it was at a mark, the mark stays, and below it stands what stood there.

## Main definitions

* `History.Action`, `History.run` — what can be done to a history, one thing after the other
* `History.Keeps` — the states of a moment are in place, and so is the mark of the moment

## Main results

* `History.Anchored.suffix_perform` — what is at the bottom of the stack stays there
* `History.Anchored.lookup_perform` — the mark of a place that is still reached stays
* `History.Keeps.run` — a moment is kept as long as the stack is not shorter
* `History.rollback_exact` — rolling back to a marked moment restores it
-/

namespace RuleProver

theorem lookup_filter_of_pos {ι : Type} {marks : List (String × ι)} {name : String} {i : ι}
    {p : String × ι → Bool} (h : marks.lookup name = some i) (hp : p (name, i) = true) :
    (marks.filter p).lookup name = some i := by
  obtain ⟨before, after, rfl, hbefore⟩ := List.lookup_eq_some_iff.mp h
  refine List.lookup_eq_some_iff.mpr ⟨before.filter p, after.filter p, ?_, fun q hq => ?_⟩
  · rw [List.filter_append, List.filter_cons_of_pos hp]
  · exact hbefore q (List.mem_of_mem_filter hq)

namespace History

variable {σ : Type}

/-! ## Actions -/

/-- What can be done to a history. It is never cut down to nothing. -/
inductive Action (σ : Type) where
  /-- Moving on to a new state. -/
  | push (s : σ)
  /-- Going back by one state. -/
  | undo
  /-- Marking the current place. -/
  | mark (name : String)
  /-- Returning to a marked place. -/
  | rollback (name : String)
  /-- Keeping only the first `n` states. -/
  | truncate (n : Int) (pos : 1 ≤ n)

/-- Does one thing to a history. -/
def perform (h : History σ) : Action σ → History σ
  | .push s => h.push s
  | .undo => h.undo.2
  | .mark name => h.mark name
  | .rollback name => (h.rollback name).2
  | .truncate n _ => (h.truncate n).2

/-- Does one thing after the other. -/
def run (h : History σ) (as : List (Action σ)) : History σ := as.foldl perform h

variable {h₀ h : History σ} {a : Action σ} {name : String} {n : Int}

/-- Cutting down changes nothing, or it cuts the stack and drops the marks above the cut. -/
theorem Anchored.truncate_cases (hh : h.Anchored) (hn : 1 ≤ n) :
    (h.truncate n).2 = h ∨ n < h.depth ∧ ∃ s past, h.stack.drop (h.depth - n.toNat) = s :: past ∧
      (h.truncate n).2 = ⟨s, s :: past, h.marks.filter (·.2 < n)⟩ := by
  rw [History.truncate]
  by_cases hlt : n < h.depth
  · obtain ⟨s, past, hdrop, hkeep⟩ := hh.keep_eq (k := n.toNat) (by omega) (· < n)
    rw [if_pos hlt, if_neg (by omega : ¬ n < 0), hkeep]
    exact .inr ⟨hlt, s, past, hdrop, rfl⟩
  · rw [if_neg hlt]
    exact .inl rfl

theorem Anchored.perform (hh : h.Anchored) (a : Action σ) : (h.perform a).Anchored := by
  cases a with
  | push s => exact hh.push s
  | undo => exact hh.undo
  | mark name => exact hh.mark name
  | rollback name => exact hh.rollback name
  | truncate n pos =>
    rw [History.perform]
    rcases hh.truncate_cases pos with heq | ⟨-, s, past, -, heq⟩
    · rwa [heq]
    · rw [heq]
      exact ⟨rfl, fun m hm => hh.marks m (List.mem_of_mem_filter hm)⟩

theorem Anchored.run (hh : h.Anchored) (as : List (Action σ)) : (h.run as).Anchored := by
  induction as generalizing h with
  | nil => exact hh
  | cons a as ih => exact ih (hh.perform a)

/-! ## The bottom of the stack -/

/-- One state is put on the stack, or states are taken from its top. -/
theorem Anchored.stack_perform (hh : h.Anchored) (a : Action σ) :
    (∃ s, (h.perform a).stack = s :: h.stack) ∨ (h.perform a).stack <:+ h.stack := by
  cases a with
  | push s => exact .inl ⟨s, rfl⟩
  | undo => exact .inr h.undo_suffix
  | mark name => exact .inr (List.suffix_refl h.stack)
  | rollback name =>
    rw [History.perform]
    cases hname : h.marks.lookup name with
    | none =>
      rw [rollback_of_lookup_eq_none hname]
      exact .inr (List.suffix_refl h.stack)
    | some m =>
      rw [(hh.rollback_of_lookup hname).1]
      exact .inr (List.drop_suffix _ _)
  | truncate n pos =>
    rw [History.perform]
    rcases hh.truncate_cases pos with heq | ⟨-, s, past, hdrop, heq⟩
    · rw [heq]
      exact .inr (List.suffix_refl h.stack)
    · rw [heq, ← hdrop]
      exact .inr (List.drop_suffix _ _)

/-- **What is at the bottom of the stack stays there**, if the stack does not become shorter. -/
theorem Anchored.suffix_perform (hh : h.Anchored) {ss : List σ} (hss : ss <:+ h.stack)
    (hlength : ss.length ≤ (h.perform a).depth) : ss <:+ (h.perform a).stack := by
  rcases hh.stack_perform a with ⟨s, heq⟩ | hsuffix
  · rw [heq]
    exact hss.trans (List.suffix_cons s h.stack)
  · exact List.suffix_of_suffix_length_le hss hsuffix hlength

/-- The first state stays at the bottom. -/
theorem Anchored.singleton_suffix_run (hh : h.Anchored) {s : σ} (hs : [s] <:+ h.stack)
    (as : List (Action σ)) : [s] <:+ (h.run as).stack := by
  induction as generalizing h with
  | nil => exact hs
  | cons a as ih =>
    obtain ⟨past, hpast⟩ := (hh.perform a).exists_past
    have hlength : [s].length ≤ (h.perform a).depth := by
      rw [depth, hpast, List.length_singleton, List.length_cons]
      omega
    exact ih (hh.perform a) (hh.suffix_perform hs hlength)

/-! ## Marks -/

/-- Where a name has just been put, and where the other names were. -/
theorem lookup_mark_self (h : History σ) (name : String) :
    (h.mark name).marks.lookup name = some ((h.depth : Int) - 1) := by
  refine List.lookup_eq_some_iff.mpr ⟨h.marks.filter (·.1 ≠ name), [], rfl, fun q hq => ?_⟩
  have hne : q.1 ≠ name := of_decide_eq_true (List.mem_filter.mp hq).2
  exact bne_iff_ne.mpr hne.symm

theorem lookup_mark_of_ne {other : String} (hne : other ≠ name)
    (hn : h.marks.lookup name = some n) : (h.mark other).marks.lookup name = some n := by
  have hkept : (h.marks.filter (·.1 ≠ other)).lookup name = some n :=
    lookup_filter_of_pos hn (by simpa using hne.symm)
  rw [History.mark, List.lookup_append, hkept, Option.some_or]

/-- **The mark of a place that is still reached stays**, unless the name is put elsewhere. -/
theorem Anchored.lookup_perform (hh : h.Anchored) (ha : a ≠ .mark name)
    (hn : h.marks.lookup name = some n) (hreach : n < (h.perform a).depth) :
    (h.perform a).marks.lookup name = some n := by
  cases a with
  | push s => exact hn
  | undo =>
    rw [History.perform, marks_undo]
    exact hn
  | mark other =>
    have hne : other ≠ name := fun heq => ha (heq ▸ rfl)
    exact lookup_mark_of_ne hne hn
  | rollback other =>
    rw [History.perform] at hreach ⊢
    cases hother : h.marks.lookup other with
    | none =>
      rw [rollback_of_lookup_eq_none hother]
      exact hn
    | some m =>
      obtain ⟨hstack, hmarks⟩ := hh.rollback_of_lookup hother
      have hm : 0 ≤ m := hh.marks (other, m) (mem_of_lookup hother)
      -- the stack now ends at the place of `other`, so that place is not below ours
      have hle : n ≤ m := by
        rw [depth, hstack, List.length_drop, ← depth] at hreach
        omega
      rw [hmarks]
      exact lookup_filter_of_pos hn (decide_eq_true hle)
  | truncate k pos =>
    rw [History.perform] at hreach ⊢
    rcases hh.truncate_cases pos with heq | ⟨-, s, past, hdrop, heq⟩
    · rwa [heq]
    · have hlt : n < k := by
        rw [heq, depth, ← hdrop, List.length_drop, ← depth] at hreach
        omega
      rw [heq]
      exact lookup_filter_of_pos hn (decide_eq_true hlt)

/-! ## Keeping a moment -/

/-- The states of a moment are at the bottom of the stack, and a name marks the place where they
end. -/
structure Keeps (name : String) (h₀ h : History σ) : Prop where
  anchored : h.Anchored
  states : h₀.stack <:+ h.stack
  place : h.marks.lookup name = some ((h₀.depth : Int) - 1)

theorem Anchored.keeps_mark (hh : h.Anchored) (name : String) : Keeps name h (h.mark name) where
  anchored := hh.mark name
  states := List.suffix_refl h.stack
  place := h.lookup_mark_self name

theorem Keeps.perform (hk : Keeps name h₀ h) (ha : a ≠ .mark name)
    (hdepth : h₀.depth ≤ (h.perform a).depth) : Keeps name h₀ (h.perform a) where
  anchored := hk.anchored.perform a
  states := hk.anchored.suffix_perform hk.states hdepth
  place := hk.anchored.lookup_perform ha hk.place (by omega)

/-- A moment is kept as long as the stack is not shorter than it was then. -/
theorem Keeps.run {bs : List (Action σ)} (hk : Keeps name h₀ h) (hlast : .mark name ∉ bs)
    (habove : ∀ cs, cs <+: bs → h₀.depth ≤ (h.run cs).depth) : Keeps name h₀ (h.run bs) := by
  induction bs generalizing h with
  | nil => exact hk
  | cons b bs ih =>
    obtain ⟨hb, hbs⟩ := not_or.mp (mt List.mem_cons.mpr hlast)
    have hfirst : h₀.depth ≤ (h.perform b).depth :=
      habove [b] (List.cons_prefix_cons.mpr ⟨rfl, List.nil_prefix⟩)
    refine ih (hk.perform (Ne.symm hb) hfirst) hbs fun cs hcs => ?_
    exact habove (b :: cs) (List.cons_prefix_cons.mpr ⟨rfl, hcs⟩)

/-- Rolling back to a moment that is kept restores its stack, and leaves it marked. -/
theorem Keeps.rollback_eq (hk : Keeps name h₀ h) (hh₀ : h₀.Anchored) :
    h.rollback name = (some true,
      ⟨h₀.current, h₀.stack, h.marks.filter (·.2 ≤ (h₀.depth : Int) - 1)⟩) := by
  obtain ⟨s, past, hdrop, heq⟩ := hk.anchored.rollback_eq hk.place
  have hplace : ((h₀.depth : Int) - 1 + 1).toNat = h₀.depth := by omega
  have hstack : s :: past = h₀.stack := by
    rw [← hdrop, hplace, depth, depth, ← List.suffix_iff_eq_drop.mp hk.states]
  have hcurrent : s = h₀.current := by
    have htop := hh₀.top
    rw [← hstack, List.head?_cons] at htop
    exact Option.some.inj htop
  rw [heq, hstack, hcurrent]

/-- After rolling back to it, a moment is kept. -/
theorem Keeps.keeps_rollback (hk : Keeps name h₀ h) (hh₀ : h₀.Anchored) :
    Keeps name h₀ (h.rollback name).2 where
  anchored := hk.anchored.rollback name
  states := ⟨[], congrArg (fun answer => answer.2.stack) (hk.rollback_eq hh₀).symm⟩
  place := by
    rw [hk.rollback_eq hh₀]
    exact lookup_filter_of_pos hk.place (decide_eq_true (Int.le_refl _))

/-- **Rolling back is exact while the stack is not undercut.** Whatever has been done to a history
that started in a state, the stack has this state at the bottom and the current state at the top. If
a name is put on the place of a moment, it is not put elsewhere afterwards, and the stack is never
shorter than it was at that moment, then rolling back to the name succeeds and restores the stack
and the current state of the moment. The name stays, and rolling back once more changes nothing. -/
theorem rollback_exact (s : σ) (as : List (Action σ)) (hreached : (ofState s).run as = h₀) :
    (h₀.states.head? = some s ∧ h₀.states.getLast? = some h₀.current) ∧
      ∀ name bs, .mark name ∉ bs →
        (∀ cs, cs <+: bs → h₀.depth ≤ ((h₀.mark name).run cs).depth) →
        ∃ h, ((h₀.mark name).run bs).rollback name = (some true, h) ∧ h.states = h₀.states ∧
          h.current = h₀.current ∧ h.hasMark name = true ∧ h.rollback name = (some true, h) := by
  have hstart : (ofState s).Anchored := anchored_ofState s
  have hh₀ : h₀.Anchored := hreached ▸ hstart.run as
  have hbottom : [s] <:+ h₀.stack :=
    hreached ▸ hstart.singleton_suffix_run (List.suffix_refl [s]) as
  refine ⟨⟨?_, ?_⟩, fun name bs hlast habove => ?_⟩
  · obtain ⟨above, habove⟩ := hbottom
    rw [states, List.head?_reverse, ← habove, List.getLast?_append, List.getLast?_singleton,
      Option.some_or]
  · rw [states, List.getLast?_reverse, hh₀.top]
  · have hk : Keeps name h₀ ((h₀.mark name).run bs) := (hh₀.keeps_mark name).run hlast habove
    have hkept := hk.keeps_rollback hh₀
    have hagain := hkept.rollback_eq hh₀
    rw [hk.rollback_eq hh₀] at hkept hagain
    refine ⟨_, hk.rollback_eq hh₀, rfl, rfl, ?_, ?_⟩
    · rw [hasMark, hkept.place, Option.isSome_some]
    · simp only [hagain, List.filter_filter, Bool.and_self]

/-- Things done after a mark, with another mark, returning to it, undoing and cutting down. -/
def busy : List (Action Nat) :=
  [.push 2, .mark "there", .push 3, .undo, .rollback "there", .push 4, .truncate 3 (by decide),
    .undo, .push 5]

/-- All of this stays above the first mark, to which rolling back is exact. -/
theorem rollback_exact_of_busy :
    ∃ h, ((((ofState 0).run [.push 1]).mark "here").run busy).rollback "here" = (some true, h) ∧
      h.states = [0, 1] ∧ h.current = 1 ∧ h.hasMark "here" = true := by
  have hlast : .mark "here" ∉ busy := by simp [busy]
  have habove : ∀ cs ∈ busy.inits, ((ofState 0).run [.push 1]).depth ≤
      ((((ofState 0).run [.push 1]).mark "here").run cs).depth := by decide +kernel
  obtain ⟨h, hrollback, hstates, hcurrent, hmark, -⟩ := (rollback_exact 0 [.push 1] rfl).2 "here"
    busy hlast fun cs hcs => habove cs ((List.mem_inits cs busy).mpr hcs)
  exact ⟨h, hrollback, hstates, hcurrent, hmark⟩

end History

end RuleProver
