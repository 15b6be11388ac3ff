import RuleProver.Session
import RuleProver.Proofs.ProofStep

/-!
# What a proof takes for granted

Some steps put objects into the tree of a proof that need not be buildable there:

* `By` and `Done` rely on a check, which accepts more than what is buildable. `Done` even checks the
  left side of a candidate in the context that the check of the candidate has left behind;
* when a rule leads to the left side of a goal that is a rule itself, `By` composes it with the
  goal, as if that had been built;
* without a candidate, `Done` looks up the statement of the goal as it was given, and puts its
  reduced form in place.

`GoalState.grants` computes those of these objects that are not buildable where they are put. They
are what the proof takes for granted, and nothing else is: with them the tree remains an outline.

## Main definitions

* `GoalState.trusted` — the objects that a directive counts as built
* `GoalState.grants` — those of them that are not buildable
* `GoalState.grantsAfter` — what is taken for granted since the last goal was stated

## Main results

* `GoalState.handleBy_cases`, `GoalState.closeWith_cases` — what `By` and `Done` put in place
* `GoalState.Outlined.next` — a directive leaves an outline behind
-/

namespace RuleProver

open RuleProver.Expr (GoalFree Buildable Reduced)

/-- Whether a check accepts an expression. -/
def Expr.accepted [HoleOrder] {α : Type} [Inhabited α] (t : Expr α) (s : Option String)
    (Γ : Context α) :
    Bool :=
  (t.check s Γ).any (·.1.holds)

theorem Expr.accepted_iff [HoleOrder] {α : Type} [Inhabited α] {t : Expr α} {s : Option String}
    {Γ : Context α} :
    t.accepted s Γ = true ↔ ∃ v Δ, t.check s Γ = some (v, Δ) ∧ v.holds = true := by
  rw [Expr.accepted]
  cases t.check s Γ with
  | none => simp
  | some r =>
    rw [Option.any_some]
    exact ⟨fun h => ⟨r.1, r.2, rfl, h⟩, fun ⟨v, Δ, hr, h⟩ => by cases hr; exact h⟩

namespace GoalState

open Object (Outline GoalFor)

variable [HoleOrder] {S S' : GoalState} {g t u : Object} {Γ Δ : Context Note}
  {G G' : List Grant}

/-! ## The objects that a step puts in place -/

/-- What is to be built for a goal. -/
def goalTerm (g : Object) : Object := g.goalTerm?.getD g

/-- The objects that `By rule` counts as built: the rule, when a check accepts it, and the goal
itself, when the rule does not lead to the goal but to its left side. -/
def trustedBy (S : GoalState) (g rule : Object) : List Object :=
  (if rule.accepted g.goalSymbol S.context then [rule] else []) ++
    if reaches (goalTerm g) rule then [] else [goalTerm g]

/-- The left side of a candidate that is a rule, when a check accepts it where the check of the
candidate has left off. -/
def trustedLeft (S : GoalState) (g candidate : Object) : List Object :=
  match candidate.check g.goalSymbol S.context, candidate.reduce? with
  | some (_, Δ), some (.node _ (.rule _) [l, _]) =>
    if l.accepted g.goalSymbol Δ then [l] else []
  | _, _ => []

/-- The objects that `Done` counts as built: a candidate that a check accepts, together with its
left side if it leads to the goal only from there, or the goal itself, when its statement is listed
as it was given. -/
def trustedDone (S : GoalState) (g : Object) : Option Object → List Object
  | none =>
    if S.context.lists g.goalSymbol (g.goalStatement?.getD g) then [goalTerm g] else []
  | some c =>
    if c.accepted g.goalSymbol S.context then
      c :: if c.reduce?.any (·.same (goalTerm g)) then [] else S.trustedLeft g c
    else []

/-- Of some objects those that are not buildable at the goal, in reduced form. -/
def unbuilt (S : GoalState) (g : Object) (ts : List Object) : List Grant :=
  (ts.filter fun t => !t.builds g.goalSymbol S.context).filterMap fun t =>
    t.reduce?.map (g.goalSymbol, ·)

theorem buildable_of_unbuilt {ts : List Object} (ht : t ∈ ts) (hu : t.reduce? = some u)
    (hΔ : S.context.Included Δ) (hG : ∀ e ∈ S.unbuilt g ts, Δ.lists e.1 e.2 = true) :
    Buildable Δ g.goalSymbol t := by
  by_cases hb : t.builds g.goalSymbol S.context = true
  · exact (Expr.builds_iff.mp hb).mono hΔ
  · refine .listed hu (hG (g.goalSymbol, u) (List.mem_filterMap.mpr ⟨t, ?_, ?_⟩))
    · exact List.mem_filter.mpr ⟨ht, by simpa using hb⟩
    · rw [hu, Option.map_some]

omit [HoleOrder] in
/-- A step that ends by updating the tree leaves the updated state, whatever it reports. -/
theorem update_of_bind {k : GoalState → Except Fault (Step GoalState)} {step : Step GoalState}
    (h : (S.update t >>= k) = .ok step) (hS' : step.1 = some S')
    (hk : ∀ S₁ step, k S₁ = .ok step → step.1 = some S₁) : S.update t = .ok S' := by
  obtain ⟨S₁, hS₁, hstep⟩ := bind_eq_ok_iff.mp h
  rw [hS₁, Option.some.inj ((hk S₁ step hstep).symm.trans hS')]

/-! ## Leading a goal back -/

theorem handleBy_cases {rule : Object} {force? : Option Object}
    (h : (S.handleBy rule force?).1 = some S') :
    ∃ g term ps σ used tree, S.goal? = some g ∧
      premisesForGoal g.goalSymbol (goalTerm g) rule = .ok (.ok (term, ps, σ)) ∧
      (used = rule ∧ rule.accepted g.goalSymbol S.context = true ∨
        isForce force? = true ∧ Object.goal g.goalSymbol rule = .ok used) ∧
      backwardTree term g.goalSymbol used ps σ = .ok tree ∧ S.update tree = .ok S' := by
  rw [handleBy] at h
  cases hg : S.goal? with
  | none => simp [hg, Step.fault] at h
  | some g =>
    rw [hg] at h
    obtain ⟨step, hstep, hS'⟩ := Step.ofExcept_fst_eq_some.mp h
    obtain ⟨found, hfound, hstep⟩ := bind_eq_ok_iff.mp hstep
    cases found with
    | error e =>
      cases hstep
      cases hS'
    | ok p =>
      obtain ⟨term, ps, σ⟩ := p
      obtain ⟨⟨v, Δ⟩, hcheck, hstep⟩ := bind_eq_ok_iff.mp hstep
      dsimp only at hstep
      split at hstep
      · cases hstep
        cases hS'
      · rename_i hforce
        -- the rule is used as it is when the check accepts it, and as a goal otherwise
        split at hstep
        · rename_i hknown
          obtain ⟨used, hused, hstep⟩ := bind_eq_ok_iff.mp hstep
          cases hused
          obtain ⟨tree, htree, hstep⟩ := bind_eq_ok_iff.mp hstep
          have hupdate : S.update tree = .ok S' :=
            update_of_bind hstep hS' fun S₁ step hk => by split at hk <;> cases hk <;> rfl
          have haccepted : rule.accepted g.goalSymbol S.context = true :=
            Expr.accepted_iff.mpr ⟨v, Δ, Expr.checkIn_eq_ok_iff.mp hcheck,
              (Bool.and_eq_true_iff.mp hknown).2⟩
          exact ⟨g, term, ps, σ, rule, tree, rfl, hfound, .inl ⟨rfl, haccepted⟩, htree, hupdate⟩
        · rename_i hknown
          obtain ⟨used, hused, hstep⟩ := bind_eq_ok_iff.mp hstep
          obtain ⟨tree, htree, hstep⟩ := bind_eq_ok_iff.mp hstep
          have hupdate : S.update tree = .ok S' :=
            update_of_bind hstep hS' fun S₁ step hk => by split at hk <;> cases hk <;> rfl
          have hforced : isForce force? = true := by simpa [hknown] using hforce
          exact ⟨g, term, ps, σ, used, tree, rfl, hfound, .inr ⟨hforced, hused⟩, htree, hupdate⟩

theorem Outlined.handleBy {rule : Object} {force? : Option Object} (hS : S.Outlined G)
    (hrule : rule.GoalFree) (hg : S.goal? = some g) (h : (S.handleBy rule force?).1 = some S') :
    S'.Outlined (G ++ S.unbuilt g (S.trustedBy g rule)) := by
  obtain ⟨g', term, ps, σ, used, tree, hg', hpremises, hused, htree, hupdate⟩ := handleBy_cases h
  obtain rfl := Option.some.inj (hg.symm.trans hg')
  obtain ⟨s, t, hgoal⟩ := hS.goalFor hg
  have hterm : goalTerm g = t := by rw [goalTerm, hgoal.term, Option.getD_some]
  refine hS.update hg hupdate fun Δ hΔ hG => ?_
  have hbuilt : ∀ u ∈ S.trustedBy g rule, ∀ v, u.reduce? = some v →
      Buildable Δ (some s) u := fun u hu v hv =>
    hgoal.symbol ▸ buildable_of_unbuilt hu hv hΔ hG
  rw [hterm, hgoal.symbol] at hpremises
  rw [hgoal.symbol] at hused htree ⊢
  have houtUsed : ∀ r, rule.reduce? = some r → Outline Δ (some s) used := by
    intro r hr
    rcases hused with ⟨rfl, haccepted⟩ | ⟨-, hused⟩
    · refine .built hrule (hbuilt _ ?_ r hr)
      rw [trustedBy, hgoal.symbol, if_pos haccepted]
      simp
    · exact outline_of_goal hused hrule
  rcases premisesForGoal_cases hpremises with ⟨rfl, hok⟩ | ⟨rfl, hreach, m, s', l, r, rfl, hok⟩
  · obtain ⟨r, hr, -, -⟩ := premisesFor_eq_ok_iff.mp hok
    have hfree : (t.identity (symbolText (some s))).GoalFree := by
      simp [Expr.identity, hgoal.free]
    exact outline_backwardTree htree (goalFree_of_premisesFor hok hgoal.free hrule)
      (.built hfree (buildable_identity hgoal.reduced)) (houtUsed r hr)
  · obtain ⟨r', hr', -, -⟩ := premisesFor_eq_ok_iff.mp hok
    have hl : l.GoalFree := (Expr.goalFree_pair.mp hgoal.free).2.1
    refine outline_backwardTree htree (goalFree_of_premisesFor hok hl hrule)
      (.built hgoal.free (hbuilt _ ?_ _ hgoal.reduced.reduce?)) (houtUsed r' hr')
    rw [trustedBy, hterm, hreach]
    simp

/-! ## Closing a goal -/

theorem close_fst_eq_some (h : (S.close t).1 = some S') : S.update t = .ok S' := by
  obtain ⟨step, hstep, hS'⟩ := Step.ofExcept_fst_eq_some.mp h
  exact update_of_bind hstep hS' fun S₁ step hk => by split at hk <;> cases hk <;> rfl

/-- A candidate is accepted by a check. It is put in place alone when it reduces to the goal, and
after its left side when this side is accepted too and its right side reduces to the goal. -/
theorem closeWith_cases {c : Object} (h : (S.closeWith g c).1 = some S') :
    ∃ v Δ r, c.check g.goalSymbol S.context = some (v, Δ) ∧ v.holds = true ∧ c.reduce? = some r ∧
      (r.same (goalTerm g) = true ∧ S.update c = .ok S' ∨
        r.same (goalTerm g) = false ∧ ∃ m s l r', r = .node m (.rule s) [l, r'] ∧
          l.accepted g.goalSymbol Δ = true ∧ (∃ q, r'.reduce? = some q ∧
            q.same (goalTerm g) = true) ∧ S.update (Expr.comp l c) = .ok S') := by
  obtain ⟨step, hstep, hS'⟩ := Step.ofExcept_fst_eq_some.mp h
  obtain ⟨⟨v, Δ⟩, hcheck, hstep⟩ := bind_eq_ok_iff.mp hstep
  obtain ⟨r, hr, hstep⟩ := bind_eq_ok_iff.mp hstep
  have hcheck' := Expr.checkIn_eq_ok_iff.mp hcheck
  have hr' := Expr.reduce_eq_ok_iff.mp hr
  dsimp only at hstep
  split at hstep
  · rename_i hv
    rw [Bool.and_eq_true] at hv
    cases hstep
    exact ⟨v, Δ, r, hcheck', hv.1, hr', .inl ⟨hv.2, close_fst_eq_some hS'⟩⟩
  · rename_i hsame
    split at hstep
    · rename_i hv
      rw [hv, Bool.true_and, Bool.not_eq_true] at hsame
      split at hstep
      · rename_i m s l r'
        obtain ⟨⟨w, Θ⟩, hleft, hstep⟩ := bind_eq_ok_iff.mp hstep
        obtain ⟨q, hq, hstep⟩ := bind_eq_ok_iff.mp hstep
        split at hstep
        · rename_i hw
          obtain ⟨hw, hqsame⟩ := Bool.and_eq_true_iff.mp hw
          cases hstep
          have hl : l.accepted g.goalSymbol Δ = true :=
            Expr.accepted_iff.mpr ⟨w, Θ, Expr.checkIn_eq_ok_iff.mp hleft, hw⟩
          exact ⟨v, Δ, _, hcheck', hv, hr', .inr ⟨hsame, m, s, l, r', rfl, hl,
            ⟨q, Expr.reduce_eq_ok_iff.mp hq, hqsame⟩, close_fst_eq_some hS'⟩⟩
        · cases hstep
          cases hS'
      · cases hstep
        cases hS'
    · cases hstep
      cases hS'

theorem handleDone_cases {c? : Option Object} (h : (S.handleDone c?).1 = some S') :
    ∃ g, S.goal? = some g ∧
      ((∃ c, c? = some c ∧ (S.closeWith g c).1 = some S') ∨
        c? = none ∧ S.context.lists g.goalSymbol (g.goalStatement?.getD g) = true ∧
          S.update (goalTerm g) = .ok S') := by
  rw [handleDone] at h
  cases hg : S.goal? with
  | none => simp [hg, Step.stay] at h
  | some g =>
    rw [hg] at h
    refine ⟨g, rfl, ?_⟩
    cases c? with
    | some c => exact .inl ⟨c, rfl, h⟩
    | none =>
      dsimp only at h
      split at h
      · rename_i hknown
        exact .inr ⟨rfl, (Bool.and_eq_true_iff.mp hknown).2, close_fst_eq_some h⟩
      · cases h

theorem Outlined.handleDone {c? : Option Object} (hS : S.Outlined G)
    (hc : ∀ c, c? = some c → c.GoalFree) (hg : S.goal? = some g)
    (h : (S.handleDone c?).1 = some S') :
    S'.Outlined (G ++ S.unbuilt g (S.trustedDone g c?)) := by
  obtain ⟨g', hg', hcases⟩ := handleDone_cases h
  obtain rfl := Option.some.inj (hg.symm.trans hg')
  obtain ⟨s, t, hgoal⟩ := hS.goalFor hg
  have hterm : goalTerm g = t := by rw [goalTerm, hgoal.term, Option.getD_some]
  rcases hcases with ⟨c, rfl, hclose⟩ | ⟨rfl, hlists, hupdate⟩
  · have hfree := hc c rfl
    obtain ⟨v, Θ, r, hcheck, hv, hr, hrest⟩ := closeWith_cases hclose
    have haccepted : c.accepted g.goalSymbol S.context = true :=
      Expr.accepted_iff.mpr ⟨v, Θ, hcheck, hv⟩
    rcases hrest with ⟨hsame, hupdate⟩ | ⟨hsame, m, s', l, r', rfl, hl, -, hupdate⟩
    · refine hS.update hg hupdate fun Δ hΔ hG => .built hfree (buildable_of_unbuilt ?_ hr hΔ hG)
      rw [trustedDone, if_pos haccepted]
      exact List.mem_cons_self
    · obtain ⟨-, hlfree, -⟩ := Expr.goalFree_pair.mp (hfree.reduce? hr)
      have hlreduced := (Expr.reduced_of_reduce? hr).sides.1
      have htrusted : S.trustedDone g (some c) = [c, l] := by
        rw [trustedDone, if_pos haccepted, hr, Option.any_some, hsame, trustedLeft, hcheck, hr]
        simp [hl]
      rw [htrusted]
      refine hS.update hg hupdate fun Δ hΔ hG => .comp ?_ ?_
      · exact .built hlfree (buildable_of_unbuilt (by simp) hlreduced.reduce? hΔ hG)
      · exact .built hfree (buildable_of_unbuilt (by simp) hr hΔ hG)
  · refine hS.update hg hupdate fun Δ hΔ hG => ?_
    rw [hterm]
    refine .built hgoal.free (buildable_of_unbuilt ?_ hgoal.reduced.reduce? hΔ hG)
    rw [trustedDone, if_pos hlists, hterm]
    exact List.mem_cons_self

/-! ## Any step -/

/-- The state that a directive moves on to, if it does. -/
def next? (S : GoalState) : Verb → List Object → Option GoalState
  | .goal, [t] => (S.handleGoal t).1
  | .assume, [] => (S.handleAssume none).1.1
  | .assume, [t] => (S.handleAssume (some t)).1.1
  | .leadBack, [rule] => (S.handleBy rule none).1
  | .leadBack, [rule, force] => (S.handleBy rule (some force)).1
  | .done, [] => (S.handleDone none).1
  | .done, [t] => (S.handleDone (some t)).1
  | .posit, args => (S.handleAxiom args).1
  | _, _ => none

/-- What moves the goals on, with the arguments that it takes. -/
inductive Moves (S : GoalState) (args : List Object) (S' : GoalState) : Verb → Prop
  | goal {t : Object} (ht : t ∈ args) (h : (S.handleGoal t).1 = some S') : Moves S args S' .goal
  | assume {arg? : Option Object} (h : (S.handleAssume arg?).1.1 = some S') :
      Moves S args S' .assume
  | leadBack {rule : Object} {force? : Option Object} (hrule : rule ∈ args)
      (h : (S.handleBy rule force?).1 = some S') : Moves S args S' .leadBack
  | done {c? : Option Object} (hc : ∀ c, c? = some c → c ∈ args)
      (h : (S.handleDone c?).1 = some S') : Moves S args S' .done
  | posit (h : (S.handleAxiom args).1 = some S') : Moves S args S' .posit

theorem moves_of_next? {v : Verb} {args : List Object} (h : S.next? v args = some S') :
    Moves S args S' v := by
  unfold next? at h
  split at h
  · exact .goal List.mem_cons_self h
  · exact .assume h
  · exact .assume h
  · exact .leadBack List.mem_cons_self h
  · exact .leadBack List.mem_cons_self h
  · exact .done (by simp) h
  · exact .done (by simp) h
  · exact .posit h
  · contradiction

/-- The objects that a directive counts as built at the goal `g`. -/
def trusted (S : GoalState) (g : Object) : Verb → List Object → List Object
  | .leadBack, rule :: _ => S.trustedBy g rule
  | .done, args => S.trustedDone g args.head?
  | _, _ => []

/-- Of the objects that a directive counts as built, those that are not buildable. -/
def grants (S : GoalState) (v : Verb) (args : List Object) : List Grant :=
  (S.goal?.map fun g => S.unbuilt g (S.trusted g v args)).getD []

/-- What a proof takes for granted after a directive that finds it taking `G` for granted. A new
goal starts a new proof, and a directive that moves nothing adds nothing. -/
def grantsAfter (S : GoalState) (G : List Grant) (v : Verb) (args : List Object) : List Grant :=
  match S.next? v args with
  | none => G
  | some _ => if v = .goal then [] else G ++ S.grants v args

/-- **A directive leaves an outline behind** of something that is buildable from the axioms and
what is taken for granted. -/
theorem Outlined.next {v : Verb} {args : List Object} (hS : S.Outlined G)
    (hargs : ∀ t ∈ args, t.GoalFree) (h : S.next? v args = some S') :
    S'.Outlined (S.grantsAfter G v args) := by
  rw [grantsAfter, h]
  dsimp only
  have hgrants : ∀ {g}, S.goal? = some g → S.grants v args = S.unbuilt g (S.trusted g v args) :=
    fun hg => by rw [grants, hg, Option.map_some, Option.getD_some]
  have hnone : (∀ g, S.trusted g v args = []) → S.grants v args = [] := by
    intro htrusted
    cases hg : S.goal? with
    | none => rw [grants, hg, Option.map_none, Option.getD_none]
    | some g => rw [hgrants hg, htrusted, unbuilt, List.filter_nil, List.filterMap_nil]
  unfold next? at h
  split at h
  · rw [if_pos rfl]
    exact handleGoal_outlined h (hargs _ List.mem_cons_self)
  · rw [if_neg Verb.noConfusion, hnone fun _ => rfl, List.append_nil]
    exact hS.handleAssume h
  · rw [if_neg Verb.noConfusion, hnone fun _ => rfl, List.append_nil]
    exact hS.handleAssume h
  · obtain ⟨g, -, -, -, -, -, hg, -⟩ := handleBy_cases h
    rw [if_neg Verb.noConfusion, hgrants hg]
    exact hS.handleBy (hargs _ List.mem_cons_self) hg h
  · obtain ⟨g, -, -, -, -, -, hg, -⟩ := handleBy_cases h
    rw [if_neg Verb.noConfusion, hgrants hg]
    exact hS.handleBy (hargs _ List.mem_cons_self) hg h
  · obtain ⟨g, hg, -⟩ := handleDone_cases h
    rw [if_neg Verb.noConfusion, hgrants hg]
    exact hS.handleDone (fun _ hc => by cases hc) hg h
  · obtain ⟨g, hg, -⟩ := handleDone_cases h
    rw [if_neg Verb.noConfusion, hgrants hg]
    exact hS.handleDone (fun _ hc => by cases hc; exact hargs _ List.mem_cons_self) hg h
  · rw [if_neg Verb.noConfusion, hnone fun _ => rfl, List.append_nil]
    exact hS.handleAxiom h
  · contradiction

end GoalState

end RuleProver
