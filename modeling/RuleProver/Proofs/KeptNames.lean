import Mathlib.Data.List.Induction
import RuleProver.Proofs.GivenNames
import RuleProver.Proofs.Rollback

/-!
# Names that are kept

A name is given by a directive, which puts one more state on the stack of the aliases. Undoing and
rolling back take states away from the stack, and nothing else does. So a name stands for something
exactly if it has been given and the stack has at no later moment been less high than it was then.
And it stands for the same as before as long as the stack is not less high and no directive gives it
again.

## Main definitions

* `Event.TakesBack` — undoing and rolling back
* `Prover.Gives` — an event gives a name
* `Prover.Keeps` — a name has been given and is kept
* `Prover.LeavesAlone` — nothing happens to a name

## Main results

* `Prover.suffix_onEvent` — only directives add to a stack
* `Prover.aliases_onEvent` — what an event does to the aliases
* `Prover.isSome_get?_iff_keeps` — the names that stand for something
* `Prover.get?_replay` — a name that is left alone stands for the same as before
-/

namespace RuleProver

/-- A directive is undone, or a marked moment is returned to. -/
def Event.TakesBack : Event → Prop
  | .undo | .rollback _ => True
  | _ => False

theorem History.Anchored.rollback_suffix {σ : Type} {h : History σ} (hh : h.Anchored)
    (name : String) : (h.rollback name).2.stack <:+ h.stack := by
  cases hn : h.marks.lookup name with
  | none =>
    exact ⟨[], congrArg History.stack (History.rollback_of_lookup_eq_none hn)⟩
  | some n =>
    rw [(hh.rollback_of_lookup hn).1]
    exact List.drop_suffix _ _

namespace Prover

variable [HoleOrder] {P P₀ : Prover} {e : Event} {es : List Event} {n : String}

/-! ## What events do to the stacks -/

/-- **Only directives add to a stack.** -/
theorem suffix_onEvent (hP : P.session.Intact) (he : ∀ d ending, e ≠ .direct d ending) :
    Session.Compares (fun h₀ h => h.stack <:+ h₀.stack) P.session (P.onEvent e).session := by
  have hrefl : Session.Compares (fun h₀ h => h.stack <:+ h₀.stack) P.session P.session :=
    ⟨List.suffix_refl _, List.suffix_refl _, List.suffix_refl _, List.suffix_refl _,
      List.suffix_refl _⟩
  cases e with
  | direct d ending => exact absurd rfl (he d ending)
  | undo => exact hrefl.undo fun h => (History.undo_suffix _).trans h
  | mark name =>
    rw [onEvent, mark, hP.mark_eq]
    exact { hrefl with }
  | rollback name =>
    rw [onEvent, rollback]
    rcases hP.rollback_cases name with heq | ⟨k, -, -, heq⟩
    · rw [heq]
      exact hrefl
    · rw [heq]
      exact ⟨hP.aliases.rollback_suffix name, hP.chain.rollback_suffix name,
        hP.functorials.rollback_suffix name, hP.numerals.rollback_suffix name,
        hP.goals.rollback_suffix name⟩
  | enter | leave | finish => exact hrefl

/-- An event gives a name to something. -/
def Gives (P : Prover) (e : Event) (n : String) : Prop :=
  ∃ t, (P.onEvent e).session.aliases = P.session.aliases.push (P.session.aliases.current.define n t)

/-- **What an event does to the aliases**: a directive that names something gives the name, undoing
and rolling back may shorten the stack, and nothing else happens to it. -/
theorem aliases_onEvent (hP : P.session.Intact) (e : Event) :
    (∃ d ending n, e = .direct d ending ∧ d.Names n ∧ P.Gives e n) ∨
      (P.onEvent e).session.aliases.stack = P.session.aliases.stack ∨
      e.TakesBack ∧ (P.onEvent e).session.aliases.stack <:+ P.session.aliases.stack := by
  cases e with
  | direct d ending =>
    rcases Session.aliases_process hP d with heq | ⟨n, t, hnames, heq⟩
    · exact .inr (.inl (congrArg History.stack heq))
    · exact .inl ⟨d, ending, n, rfl, hnames, t, heq⟩
  | undo | rollback =>
    refine .inr (.inr ⟨trivial, (suffix_onEvent hP ?_).aliases⟩)
    exact nofun
  | mark name =>
    refine .inr (.inl ?_)
    rw [onEvent, mark, hP.mark_eq]
    rfl
  | enter | leave | finish => exact .inr (.inl rfl)

/-! ## How high the aliases are -/

/-- The number of states on the stack of the aliases. -/
def height (P : Prover) : Nat := P.session.aliases.depth

theorem Gives.height_eq (h : P.Gives e n) : (P.onEvent e).height = P.height + 1 := by
  obtain ⟨t, h⟩ := h
  rw [height, h]
  rfl

theorem Gives.isSome_get?_iff {m : String} (h : P.Gives e m) :
    ((P.onEvent e).session.aliases.current.get? n).isSome = true ↔
      (P.session.aliases.current.get? n).isSome = true ∨ P.Gives e n := by
  have hget : ∀ {x : String} {t : Object}, (P.onEvent e).session.aliases =
      P.session.aliases.push (P.session.aliases.current.define x t) →
        (P.onEvent e).session.aliases.current.get? n =
          if n = x then some t else P.session.aliases.current.get? n := by
    intro x t haliases
    rw [haliases]
    exact Aliases.get?_define _ x t n
  obtain ⟨t, haliases⟩ := h
  constructor
  · intro hsome
    by_cases hn : n = m
    · exact .inr ⟨t, hn ▸ haliases⟩
    · rw [hget haliases, if_neg hn] at hsome
      exact .inl hsome
  · rintro (hsome | ⟨t', haliases'⟩)
    · rw [hget haliases]
      split
      · rfl
      · exact hsome
    · rw [hget haliases', if_pos rfl]
      rfl

/-- The aliases are less high only after something is taken back. -/
theorem height_le_replay (hP : P.session.Intact) (hes : ∀ e ∈ es, ¬ e.TakesBack) :
    P.height ≤ (P.replay es).height := by
  induction es generalizing P with
  | nil => exact Nat.le_refl _
  | cons e es ih =>
    obtain ⟨he, hes⟩ := List.forall_mem_cons.mp hes
    refine Nat.le_trans ?_ (ih (intact_onEvent hP e) hes)
    rcases aliases_onEvent hP e with ⟨d, ending, n, -, -, hgives⟩ | heq | ⟨hback, -⟩
    · rw [hgives.height_eq]
      exact Nat.le_succ _
    · exact Nat.le_of_eq (congrArg List.length heq).symm
    · exact absurd hback he

/-! ## Names that are kept -/

/-- A name has been given in a journal, and at no later moment were the aliases less high. -/
def Keeps (P : Prover) (es : List Event) (n : String) : Prop :=
  ∃ before e after, es = before ++ e :: after ∧ (P.replay before).Gives e n ∧
    ∀ later, later <+: after →
      (P.replay (before ++ [e])).height ≤ (P.replay (before ++ e :: later)).height

/-- Moreover, this made the aliases at most so high. -/
def KeepsBelow (P : Prover) (k : Nat) (es : List Event) (n : String) : Prop :=
  ∃ before e after, es = before ++ e :: after ∧ (P.replay before).Gives e n ∧
    (P.replay (before ++ [e])).height ≤ k ∧ ∀ later, later <+: after →
      (P.replay (before ++ [e])).height ≤ (P.replay (before ++ e :: later)).height

/-- Nothing that is kept lies higher than the aliases are in the end. -/
theorem keepsBelow_iff_keeps {k : Nat} (hk : (P.replay es).height ≤ k) :
    P.KeepsBelow k es n ↔ P.Keeps es n := by
  constructor
  · rintro ⟨before, e, after, heq, hgives, -, hkept⟩
    exact ⟨before, e, after, heq, hgives, hkept⟩
  · rintro ⟨before, e, after, rfl, hgives, hkept⟩
    have hlast := hkept after (List.prefix_refl _)
    exact ⟨before, e, after, rfl, hgives, Nat.le_trans hlast hk, hkept⟩

/-- What an event makes of the names that are kept: those that lie too high are lost, and the name
that it gives is added. -/
theorem keepsBelow_concat_iff {k : Nat} : P.KeepsBelow k (es ++ [e]) n ↔
    P.KeepsBelow (min k (P.replay (es ++ [e])).height) es n ∨
      (P.replay es).Gives e n ∧ (P.replay (es ++ [e])).height ≤ k := by
  constructor
  · rintro ⟨before, e', after, heq, hgives, hk, hkept⟩
    rcases List.eq_nil_or_concat' after with rfl | ⟨after, last, rfl⟩
    · obtain ⟨rfl, hlast⟩ := List.append_inj' heq rfl
      cases hlast
      exact .inr ⟨hgives, hk⟩
    · have hconcat : es ++ [e] = (before ++ e' :: after) ++ [last] := by simpa using heq
      obtain ⟨rfl, hlast⟩ := List.append_inj' hconcat rfl
      cases hlast
      have hlate := hkept _ (List.prefix_refl _)
      refine .inl ⟨before, e', after, rfl, hgives, ?_, fun later hlater => ?_⟩
      · rw [Nat.le_min]
        refine ⟨hk, ?_⟩
        rw [hconcat]
        simpa using hlate
      · exact hkept later (hlater.trans (List.prefix_append _ _))
  · rintro (⟨before, e', after, rfl, hgives, hk, hkept⟩ | ⟨hgives, hk⟩)
    · rw [Nat.le_min] at hk
      refine ⟨before, e', after ++ [e], by simp, hgives, hk.1, fun later hlater => ?_⟩
      rcases List.prefix_concat_iff.mp hlater with rfl | hlater
      · simpa using hk.2
      · exact hkept later hlater
    · refine ⟨es, e, [], rfl, hgives, hk, fun later hlater => ?_⟩
      obtain rfl := List.prefix_nil.mp hlater
      exact Nat.le_refl _

/-- Below a place in the stack, the names that stand for something are those that were given below
it and are kept. -/
theorem isSome_get?_iff_keepsBelow (hP : P.session.Intact)
    (hstart : P.session.aliases.stack = [[]]) {A : Aliases} {past : List Aliases}
    (h : A :: past <:+ (P.replay es).session.aliases.stack) :
    (A.get? n).isSome = true ↔ P.KeepsBelow (past.length + 1) es n := by
  induction es using List.reverseRecOn generalizing A past with
  | nil =>
    have heq : A :: past = [[]] := by
      rw [replay, List.foldl_nil, hstart] at h
      exact h.eq_of_length_le (by simp)
    cases heq
    refine iff_of_false (by simp [Aliases.get?]) ?_
    rintro ⟨before, e, after, heq, -⟩
    simp at heq
  | append_singleton es e ih =>
    have hQ := intact_replay hP es
    have hnew : P.replay (es ++ [e]) = (P.replay es).onEvent e := replay_append P es [e]
    rw [keepsBelow_concat_iff]
    rw [hnew] at h ⊢
    have hbelow : past.length + 1 ≤ ((P.replay es).onEvent e).height := h.length_le
    rw [Nat.min_eq_left hbelow]
    rcases aliases_onEvent hQ e with ⟨d, ending, m, -, -, hgives⟩ | hkept
    · obtain ⟨t, haliases⟩ := hgives
      have hhigher := Gives.height_eq ⟨t, haliases⟩
      rw [haliases] at h
      rcases List.suffix_cons_iff.mp h with htop | hold
      · -- at the top of the stack, where the name has been given
        obtain ⟨rfl, rfl⟩ := List.cons.inj htop
        obtain ⟨past, hpast⟩ := hQ.aliases.exists_past
        have hheight : (P.replay es).height = past.length + 1 := congrArg List.length hpast
        have hcurrent := ih ⟨[], hpast.symm⟩
        rw [← hheight, keepsBelow_iff_keeps (Nat.le_refl _)] at hcurrent
        have hkeeps : P.KeepsBelow ((P.replay es).session.aliases.stack.length + 1) es n ↔
            P.Keeps es n := keepsBelow_iff_keeps (Nat.le_succ _)
        have htall : ((P.replay es).onEvent e).height ≤
            (P.replay es).session.aliases.stack.length + 1 := Nat.le_of_eq hhigher
        have hgives := Gives.isSome_get?_iff (n := n) ⟨t, haliases⟩
        rw [haliases] at hgives
        rw [hkeeps, ← hcurrent, and_iff_left htall]
        exact hgives
      · have hle : past.length + 1 ≤ (P.replay es).height := hold.length_le
        rw [ih hold]
        refine (or_iff_left ?_).symm
        rintro ⟨-, hhigh⟩
        omega
    · have hsuffix : ((P.replay es).onEvent e).session.aliases.stack <:+
          (P.replay es).session.aliases.stack := by
        rcases hkept with heq | ⟨-, hsuffix⟩
        · exact heq ▸ List.suffix_refl _
        · exact hsuffix
      rw [ih (h.trans hsuffix)]
      refine (or_iff_left ?_).symm
      rintro ⟨hgives, -⟩
      have hle : ((P.replay es).onEvent e).height ≤ (P.replay es).height := hsuffix.length_le
      rw [hgives.height_eq] at hle
      exact Nat.not_succ_le_self _ hle

/-- **A name stands for something exactly if it has been given and is kept.** -/
theorem isSome_get?_iff_keeps (base : String) (es : List Event) (n : String) :
    (((initial base).replay es).session.aliases.current.get? n).isSome = true ↔
      (initial base).Keeps es n := by
  have hintact := intact_replay (P := initial base) Session.intact_initial es
  obtain ⟨past, hpast⟩ := hintact.aliases.exists_past
  have hheight : ((initial base).replay es).height = past.length + 1 := congrArg List.length hpast
  have hstart : (initial base).session.aliases.stack = [[]] := rfl
  rw [isSome_get?_iff_keepsBelow Session.intact_initial hstart ⟨[], hpast.symm⟩, ← hheight,
    keepsBelow_iff_keeps (Nat.le_refl _)]

/-! ## Names that are left alone -/

/-- A journal leaves a name alone: no directive in it gives the name, and the aliases are at no
moment less high than at the start. -/
def LeavesAlone (P : Prover) (es : List Event) (n : String) : Prop :=
  (∀ d ending, .direct d ending ∈ es → ¬ d.Names n) ∧
    ∀ later, later <+: es → P.height ≤ (P.replay later).height

/-- The states that have been put on the stack of the aliases have the same meaning for a name as
the state below them. -/
def Agrees (P₀ P : Prover) (n : String) : Prop :=
  ∃ above, P.session.aliases.stack = above ++ P₀.session.aliases.stack ∧
    ∀ A ∈ above, A.get? n = P₀.session.aliases.current.get? n

omit [HoleOrder] in
theorem Agrees.get?_eq (h : P₀.Agrees P n) (hP₀ : P₀.session.Intact) (hP : P.session.Intact) :
    P.session.aliases.current.get? n = P₀.session.aliases.current.get? n := by
  obtain ⟨above, hstack, habove⟩ := h
  have htop := hP.aliases.top
  cases above with
  | nil =>
    rw [hstack, List.nil_append, hP₀.aliases.top] at htop
    rw [Option.some.inj htop]
  | cons A above =>
    rw [hstack, List.cons_append, List.head?_cons] at htop
    exact Option.some.inj htop ▸ habove A List.mem_cons_self

theorem Agrees.onEvent (h : P₀.Agrees P n) (hP₀ : P₀.session.Intact)
    (hP : P.session.Intact) (he : ∀ d ending, e = .direct d ending → ¬ d.Names n)
    (hheight : P₀.height ≤ (P.onEvent e).height) : P₀.Agrees (P.onEvent e) n := by
  have hcurrent := h.get?_eq hP₀ hP
  obtain ⟨above, hstack, habove⟩ := h
  rcases aliases_onEvent hP e with ⟨d, ending, m, rfl, hnames, t, heq⟩ | heq | ⟨-, hsuffix⟩
  · have hne : n ≠ m := fun h => he d ending rfl (h ▸ hnames)
    refine ⟨P.session.aliases.current.define m t :: above, ?_, ?_⟩
    · rw [heq, History.push, hstack, List.cons_append]
    · refine List.forall_mem_cons.mpr ⟨?_, habove⟩
      rw [Aliases.get?_define, if_neg hne, hcurrent]
  · exact ⟨above, heq.trans hstack, habove⟩
  · -- what is taken away lies above the state at the start
    rw [hstack, List.suffix_iff_eq_drop, List.length_append] at hsuffix
    rw [List.drop_append_of_le_length] at hsuffix
    · exact ⟨_, hsuffix, fun A hA => habove A (List.mem_of_mem_drop hA)⟩
    · rw [height, height, History.depth, History.depth] at hheight
      omega

/-- **A name that is left alone stands for the same as before.** -/
theorem get?_replay (hP : P.session.Intact) (hes : P.LeavesAlone es n) :
    (P.replay es).session.aliases.current.get? n = P.session.aliases.current.get? n := by
  suffices h : P.Agrees (P.replay es) n from h.get?_eq hP (intact_replay hP es)
  induction es using List.reverseRecOn with
  | nil => exact ⟨[], rfl, List.forall_mem_nil _⟩
  | append_singleton es e ih =>
    obtain ⟨hnames, hheight⟩ := hes
    have hbefore : P.LeavesAlone es n :=
      ⟨fun d ending hd => hnames d ending (List.mem_append_left _ hd),
        fun later hlater => hheight later (hlater.trans (List.prefix_append _ _))⟩
    have hlast := hheight _ (List.prefix_refl _)
    rw [replay_append] at hlast ⊢
    refine (ih hbefore).onEvent hP (intact_replay hP es) (fun d ending heq => ?_) hlast
    exact hnames d ending (List.mem_append_right _ (heq ▸ List.mem_cons_self))

end Prover

end RuleProver
