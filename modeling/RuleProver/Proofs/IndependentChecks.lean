import RuleProver.Proofs.Grants

/-!
# The two checks of `Done`

`Done` checks a candidate, and then, when the candidate reduces to a rule, the left side of that
rule. The second check starts from what the first one leaves behind. This can make a difference,
since the candidate may have a rule inside that starts from the same left side: with
`f(#x) => g(#x)` as the only axiom the candidate `(f(a) => f(a)) | (f(#x) => g(#x))` leaves `f(a)`
behind, so `f(a)` is accepted, and `g(a)` counts as built (`done_influenced`).

`GoalState.doneApart` is `Done` with two checks that both start from the context of the goal. `Done`
agrees with it exactly when the second check comes out the same either way, or when it answers
either way and the answer does not matter because the rule does not end in the goal. There is no
influence at all by a candidate that is listed, or one that adds to no list of the context
(`handleDone_eq_doneApart_iff`).

## Main definitions

* `GoalState.doneChecking` — `Done`, with the context of the second check left open
* `GoalState.doneApart` — `Done` with two checks that start from the same context
* `GoalState.secondCheck?` — what the second check is about, and what it finds

## Main results

* `Expr.Checked.eq_of_addsTo` — a check that adds to no list leaves its context as it was
* `GoalState.handleDone_eq_doneApart_iff` — when the first check has no influence on `Done`
-/

namespace RuleProver

variable {α : Type}

namespace Context

theorem has_of_mem {Γ : Context α} {e : Option String × List (Expr α)} (he : e ∈ Γ) :
    Γ.has e.1 = true := by
  rw [has, Option.isSome_iff_ne_none]
  intro hnone
  simpa using List.lookup_eq_none_iff.mp hnone e he

/-- Adding under a symbol changes nothing under others. -/
theorem filter_add {Γ : Context α} {s : Option String} {t : Expr α} {K : List (Option String)}
    (hs : s ∉ K) :
    (Γ.add s t).filter (fun e => decide (e.1 ∈ K)) = Γ.filter fun e => decide (e.1 ∈ K) := by
  rw [add]
  split
  · have hkeys : ((fun e : Option String × List (Expr α) => decide (e.1 ∈ K)) ∘ fun e =>
        if e.1 = s then (e.1, e.2 ++ [t]) else e) = fun e => decide (e.1 ∈ K) := by
      funext e
      dsimp only [Function.comp_apply]
      split <;> rfl
    rw [List.filter_map, hkeys]
    refine (List.map_congr_left fun e he => if_neg ?_).trans (List.map_id' _)
    rintro rfl
    exact hs (of_decide_eq_true (List.mem_filter.mp he).2)
  · simp [hs]

end Context

namespace Expr

variable [Inhabited α] {Γ Δ : Context α} {s : Option String} {t : Expr α} {v : Verdict α}
  [HoleOrder]

/-- Whether a check accepts an expression. There is no answer when it breaks off. -/
def verdict? (t : Expr α) (s : Option String) (Γ : Context α) : Option Bool :=
  (t.check s Γ).map (·.1.holds)

/-! ## Checks that add to no list -/

/-- A check that adds to the lists of none of the symbols `K` keeps what stands under them. -/
theorem Checked.filter_eq (h : Checked Γ s t v Δ) {K : List (Option String)}
    (hK : t.addsTo K = false) :
    Δ.filter (fun e => decide (e.1 ∈ K)) = Γ.filter fun e => decide (e.1 ∈ K) := by
  induction h with
  | listed => rfl
  | @rule Γ Δ s m s' l l' r v _ _ _ ih =>
    simp only [addsTo, Bool.or_eq_false_iff, decide_eq_false_iff_not] at hK
    have hΔ := (ih hK.2).trans (Context.filter_add hK.1)
    have hΓ : Γ.filter (fun e => (Γ.get? e.1).isSome) = Γ :=
      List.filter_eq_self.mpr fun e he => Context.has_of_mem he
    rw [Context.within, List.filter_comm, hΔ, List.filter_comm, hΓ]
  | left _ _ _ ih =>
    simp only [addsTo, Bool.or_eq_false_iff] at hK
    exact ih hK.1
  | comp _ _ _ _ ihl ihr =>
    simp only [addsTo, Bool.or_eq_false_iff] at hK
    rw [ihr hK.2, ihl hK.1]
  | unbuildable => rfl

/-- A check leaves its context as it was when it finds the expression listed. -/
theorem eq_of_isListed (h : t.check s Γ = some (v, Δ)) (hlisted : t.isListed s Γ = true) :
    Δ = Γ := by
  cases outcome_of_check h with
  | listed => rfl
  | rule unknown | left unknown | comp unknown =>
    rw [hlisted] at unknown
    contradiction
  | unbuildable => rfl

/-- **A check that adds to no list** of its context leaves the context as it was. -/
theorem Checked.eq_of_addsTo (h : Checked Γ s t v Δ) (hK : t.addsTo Γ.symbols = false) :
    Δ = Γ := by
  have hΔ : Δ.filter (fun e => decide (e.1 ∈ Γ.symbols)) = Δ := by
    refine List.filter_eq_self.mpr fun e he => decide_eq_true ?_
    exact Context.mem_symbols_of_has (h.has_of_has (Context.has_of_mem he))
  have hΓ : Γ.filter (fun e => decide (e.1 ∈ Γ.symbols)) = Γ :=
    List.filter_eq_self.mpr fun e he => decide_eq_true (List.mem_map_of_mem he)
  rw [← hΔ, h.filter_eq hK, hΓ]

end Expr

namespace GoalState

section

variable [HoleOrder] {S : GoalState} {g c l r : Object} {Δ : Context Note}

/-! ## `Done` with a choice of contexts -/

/-- Closes a goal with a candidate as `closeWith` does. The left side of the reduced candidate is
checked in the context `second Γ Δ`, where `Γ` is the context that the check of the candidate starts
from and `Δ` the one that it leaves behind. -/
def closeChecking (second : Context Note → Context Note → Context Note) (S : GoalState)
    (g candidate : Object) : Step GoalState := .ofExcept do
  let symbol := g.goalSymbol
  let (v, Δ) ← candidate.checkIn symbol S.context
  let reduced ← candidate.reduce
  if v.holds && reduced.same (goalTerm g) then
    return S.close candidate
  if v.holds then
    if let .node _ (.rule _) [l, r] := reduced then
      let (w, _) ← l.checkIn symbol (second S.context Δ)
      let r' ← r.reduce
      if w.holds && r'.same (goalTerm g) then
        return S.close (Expr.comp l candidate)
  return .stay (.failed (.about g "Candidate does not complete the goal: []"))

/-- Carries out `Done` with a candidate as `handleDone` does, with the same choice for the second
check. -/
def doneChecking (second : Context Note → Context Note → Context Note) (S : GoalState)
    (candidate : Object) : Step GoalState :=
  match S.goal? with
  | none => .stay (.failed (.error "No active goals"))
  | some g => S.closeChecking second g candidate

/-- In `Done` the second check goes on from where the first one has left off. -/
theorem handleDone_eq_doneChecking :
    S.handleDone (some c) = S.doneChecking (fun _ Δ => Δ) c := rfl

/-- `Done` with two checks that both start from the context of the goal. -/
def doneApart (S : GoalState) (candidate : Object) : Step GoalState :=
  S.doneChecking (fun Γ _ => Γ) candidate

/-! ## The second check -/

/-- What the second check is about: the left and the right side of the reduced candidate. It starts
from what the first check leaves behind, which is returned too. There is no second check when the
first one refuses or when the candidate reduces to the goal or to something that is no rule. -/
def secondCheck? (S : GoalState) (g c : Object) :
    Option (Object × Object × Context Note) :=
  match c.check g.goalSymbol S.context, c.reduce? with
  | some (v, Δ), some (.node m (.rule s) [l, r]) =>
    if v.holds && !(Expr.node m (.rule s) [l, r]).same (goalTerm g) then some (l, r, Δ) else none
  | _, _ => none

theorem exists_check_of_secondCheck? (h : S.secondCheck? g c = some (l, r, Δ)) :
    ∃ v, c.check g.goalSymbol S.context = some (v, Δ) := by
  unfold secondCheck? at h
  split at h
  · rename_i v Δ' m s l' r' hcheck hreduce
    split at h
    · cases h
      exact ⟨v, hcheck⟩
    · cases h
  · cases h

/-- How `Done` ends after the second check. -/
def conclude (S : GoalState) (g c l r : Object) : Option Bool → Step GoalState
  | none => .fault .tooManySteps
  | some accepted =>
    if accepted && r.same (goalTerm g) then S.close (Expr.comp l c)
    else .stay (.failed (.about g "Candidate does not complete the goal: []"))

theorem closeChecking_of_none (h : S.secondCheck? g c = none)
    (second second' : Context Note → Context Note → Context Note) :
    S.closeChecking second g c = S.closeChecking second' g c := by
  unfold secondCheck? at h
  simp only [closeChecking, Expr.checkIn, Expr.reduce, bind, Except.bind]
  cases hcheck : c.check g.goalSymbol S.context with
  | none => rfl
  | some p =>
    cases hreduce : c.reduce? with
    | none => rfl
    | some u =>
      rw [hcheck, hreduce] at h
      dsimp only
      split
      · rfl
      · rename_i hsame
        split
        · rename_i hv
          split
          · -- an accepted candidate that reduces to another rule than the goal has a second check
            simp only [hv, Bool.true_and, Bool.not_eq_true] at hsame
            simp [hv, hsame] at h
          · rfl
        · rfl

theorem closeChecking_of_some (h : S.secondCheck? g c = some (l, r, Δ))
    (second : Context Note → Context Note → Context Note) :
    S.closeChecking second g c =
      S.conclude g c l r (l.verdict? g.goalSymbol (second S.context Δ)) := by
  unfold secondCheck? at h
  split at h
  · rename_i v Δ' m s l' r' hcheck hreduce
    split at h
    · rename_i hv
      cases h
      rw [Bool.and_eq_true, Bool.not_eq_true'] at hv
      have hr : r.reduce? = some r := (Expr.reduced_of_reduce? hreduce).sides.2.reduce?
      simp only [closeChecking, Expr.checkIn, hcheck, Expr.reduce, hreduce, bind, Except.bind, hv,
        hr, Bool.and_false, Bool.false_eq_true, if_false, if_true, Expr.verdict?]
      cases l.check g.goalSymbol (second S.context Δ) with
      | none => rfl
      | some p =>
        dsimp only [conclude, Option.map_some]
        split <;> rfl
    · cases h
  · cases h

/-- Closing a goal always moves on to a new state, even if what is shown of it breaks off. -/
theorem exists_close_fst (hg : S.goal? = some g) : ∃ S', (S.close c).1 = some S' := by
  obtain ⟨tree, htree, -⟩ := Option.bind_eq_some_iff.mp hg
  refine ⟨⟨some (Object.replaceGoal c tree), S.axioms⟩, Step.ofExcept_fst_eq_some.mpr ?_⟩
  rw [update, htree]
  simp only [bind, Except.bind]
  split <;> exact ⟨_, rfl, rfl⟩

/-- `Done` breaks off, closes the goal or reports that it is not closed, as the second check says.
When the rule does not end in the goal, only breaking off makes a difference. -/
theorem conclude_eq_conclude_iff (hg : S.goal? = some g) {a b : Option Bool} :
    S.conclude g c l r a = S.conclude g c l r b ↔
      a = b ∨ (a.isSome = true ∧ b.isSome = true ∧ r.same (goalTerm g) = false) := by
  obtain ⟨S', hclose⟩ := exists_close_fst (c := Expr.comp l c) hg
  have hstay : S.close (Expr.comp l c) ≠
      .stay (.failed (.about g "Candidate does not complete the goal: []")) := by
    intro h
    rw [h] at hclose
    cases hclose
  have hfault : ∀ b, S.conclude g c l r (some b) ≠ S.conclude g c l r none := by
    intro b h
    rw [conclude, conclude] at h
    split at h
    · rw [h] at hclose
      cases hclose
    · cases h
  match a, b with
  | none, none => simp
  | none, some b => simpa using (hfault b).symm
  | some a, none => simpa using hfault a
  | some a, some b =>
    cases hsame : r.same (goalTerm g) with
    | false => simp [conclude, hsame]
    | true => cases a <;> cases b <;> simp [conclude, hsame, hstay, hstay.symm]

/-! ## When the first check has no influence -/

/-- **When the two checks of `Done` do not influence each other.** With a goal in focus, `Done` does
the same with a candidate as if both its checks started from the context of the goal exactly when
the second check comes out the same from that context as from what the first one leaves behind, or
comes to an end from both and concerns a rule that does not end in the goal. There is no influence
when the candidate is listed, or when its check adds to no list of the context. -/
theorem handleDone_eq_doneApart_iff (hg : S.goal? = some g) :
    (S.handleDone (some c) = S.doneApart c ↔
      ∀ l r Δ, S.secondCheck? g c = some (l, r, Δ) →
        l.verdict? g.goalSymbol Δ = l.verdict? g.goalSymbol S.context ∨
          ((l.verdict? g.goalSymbol Δ).isSome = true ∧
            (l.verdict? g.goalSymbol S.context).isSome = true ∧
            r.same (goalTerm g) = false)) ∧
    (c.isListed g.goalSymbol S.context = true ∨ c.addsTo S.context.symbols = false →
      S.handleDone (some c) = S.doneApart c) := by
  have hiff : S.handleDone (some c) = S.doneApart c ↔ ∀ l r Δ, S.secondCheck? g c = some (l, r, Δ) →
      S.conclude g c l r (l.verdict? g.goalSymbol Δ) =
        S.conclude g c l r (l.verdict? g.goalSymbol S.context) := by
    rw [handleDone_eq_doneChecking, doneApart, doneChecking, doneChecking, hg]
    dsimp only
    cases hsecond : S.secondCheck? g c with
    | none => simpa using closeChecking_of_none hsecond _ _
    | some p =>
      obtain ⟨l, r, Δ⟩ := p
      rw [closeChecking_of_some hsecond, closeChecking_of_some hsecond]
      constructor
      · rintro h l' r' Δ' ⟨⟩
        exact h
      · intro h
        exact h l r Δ rfl
  refine ⟨hiff.trans ?_, fun hc => hiff.mpr fun l r Δ hsecond => ?_⟩
  · simp only [conclude_eq_conclude_iff hg]
  · obtain ⟨v, hcheck⟩ := exists_check_of_secondCheck? hsecond
    have hΔ : Δ = S.context := by
      rcases hc with hlisted | hadds
      · exact Expr.eq_of_isListed hcheck hlisted
      · exact (Expr.checked_of_check hcheck).eq_of_addsTo hadds
    rw [hΔ]

end

/-- The rule `f(#x) => g(#x)`. -/
abbrev fToG : Object := .rule (.term "f" [.var "x"]) "=>" (.term "g" [.var "x"])

/-- The goal `g(a)`, to be built for `=>` from axioms. -/
abbrev proveGA (axioms : List Object) : GoalState :=
  ⟨some (.node (.mk none (some (some "=>", .term "g" [.const "a"]))) .goal
    [.term "g" [.const "a"]]), axioms.map fun t => (some "=>", t)⟩

/-- What `Use` makes of `f(a)` and `f(#x) => g(#x)`. -/
abbrev fromFA : Object :=
  .comp (.rule (.term "f" [.const "a"]) "=>" (.term "f" [.const "a"])) fToG

/-- With `f(a)` among the axioms the candidate leaves it behind a second time, which makes no
difference. -/
theorem done_same_of_axiom :
    (proveGA [.term "f" [.const "a"], fToG]).handleDone (some fromFA) =
      (proveGA [.term "f" [.const "a"], fToG]).doneApart fromFA := by
  refine (handleDone_eq_doneApart_iff rfl).1.mpr fun l r Δ h => .inl ?_
  cases h
  rfl

/-- Without `f(a)` among the axioms, `Done` closes the goal with the candidate. It would not if its
second check started from the context of the goal. -/
theorem done_influenced :
    (∃ S r, (proveGA [fToG]).handleDone (some fromFA) = .move S (.done r) ∧ S.goal? = none) ∧
      (proveGA [fToG]).doneApart fromFA = .stay (.failed (.about
        (.node (.mk none (some (some "=>", .term "g" [.const "a"]))) .goal
          [.term "g" [.const "a"]]) "Candidate does not complete the goal: []")) :=
  ⟨⟨_, _, rfl, rfl⟩, rfl⟩

end GoalState

end RuleProver
