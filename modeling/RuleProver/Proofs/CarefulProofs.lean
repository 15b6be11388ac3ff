import RuleProver.Proofs.IndependentChecks
import RuleProver.Proofs.KnownGoals
import RuleProver.Proofs.StatementRun

/-!
# Careful proofs

A finished proof is buildable from the axioms and what it takes for granted. What it takes for
granted is whatever it counts as built without being buildable, and this cannot be seen in the lines
of the proof. There are conditions on the directives that can be seen, and under which nothing is
taken for granted:

* a goal is led back by a rule that leads to the goal itself, and not only to its left side;
* in such a rule, and in a candidate for closing a goal, no composition adds on its left to a list
  that its right side can see;
* a candidate reduces to the goal, or its check leaves the context as it was and its left side is
  like the rules above;
* axioms are stated in reduced form.

A directive that meets them is *careful* at the goals that it finds. A proof that is finished by
careful directives is buildable from the axioms alone (`Prover.buildable_of_careful`).

## Main definitions

* `GoalState.careful` — whether a directive is careful
* `Session.allCareful` — whether directives are all careful when their turn comes

## Main results

* `GoalState.grants_eq_nil` — a careful directive takes nothing for granted
* `Session.Built.process`, `Session.Built.granted_eq_nil` — one directive, and any number
* `Prover.buildable_of_careful` — what a finished proof builds
-/

namespace RuleProver

open RuleProver.Expr (Buildable)

/-- What a check accepts can be built if nothing that is left behind on the left of a composition
can be seen on its right. -/
theorem Expr.buildable_of_accepted [HoleOrder] {α : Type} [Inhabited α] {t : Expr α}
    {s : Option String}
    {Γ : Context α} (h : t.accepted s Γ = true) (hsep : t.separate Γ.symbols = true) :
    Buildable Γ s t := by
  obtain ⟨v, Δ, hcheck, hv⟩ := Expr.accepted_iff.mp h
  exact (Expr.checked_of_check hcheck).buildable_of_separate (fun _ => Context.mem_symbols_of_has)
    hsep hv

namespace GoalState

variable [HoleOrder] {S S' : GoalState} {g c t rule : Object} {v : Verb} {args : List Object}
  {G : List Grant}

/-! ## One directive -/

/-- Whether the left side of a candidate that is a rule can be relied on: the check of the candidate
leaves the context as it was, and nothing is left behind in the left side. -/
def leavesAlone (S : GoalState) (g c : Object) : Bool :=
  (c.isListed g.goalSymbol S.context || !c.addsTo S.context.symbols) &&
    match c.reduce? with
    | some (.node _ (.rule _) [l, _]) => l.separate S.context.symbols
    | _ => true

/-- Whether a directive is careful at the goals that it finds. -/
def careful (S : GoalState) : Verb → List Object → Bool
  | .leadBack, rule :: _ =>
    S.goal?.all fun g => reaches (goalTerm g) rule && rule.separate S.context.symbols
  | .done, c :: _ =>
    S.goal?.all fun g => c.separate S.context.symbols &&
      (c.reduce?.any (·.same (goalTerm g)) || S.leavesAlone g c)
  | .posit, args => args.getLast?.all fun t => decide t.Reduced
  | _, _ => true

/-- Every axiom is in reduced form. -/
def ReducedAxioms (S : GoalState) : Prop := ∀ e ∈ S.axioms, e.2.Reduced

theorem unbuilt_eq_nil {ts : List Object}
    (h : ∀ t ∈ ts, Buildable S.context g.goalSymbol t) :
    S.unbuilt g ts = [] := by
  have hnone : (ts.filter fun t => !t.builds g.goalSymbol S.context) = [] := by
    refine List.filter_eq_nil_iff.mpr fun t ht => ?_
    simp [Expr.builds_iff.mpr (h t ht)]
  rw [unbuilt, hnone, List.filterMap_nil]

theorem buildable_of_trustedBy (hreaches : reaches (goalTerm g) rule = true)
    (hsep : rule.separate S.context.symbols = true) :
    ∀ t ∈ S.trustedBy g rule, Buildable S.context g.goalSymbol t := by
  rw [trustedBy, if_pos hreaches, List.append_nil]
  split
  · rename_i haccepted
    exact List.forall_mem_singleton.mpr (Expr.buildable_of_accepted haccepted hsep)
  · exact List.forall_mem_nil _

theorem buildable_of_trustedLeft (h : S.leavesAlone g c = true) :
    ∀ t ∈ S.trustedLeft g c, Buildable S.context g.goalSymbol t := by
  rw [trustedLeft]
  split
  · rename_i v Δ m s l r hcheck hreduce
    rw [leavesAlone, hreduce, Bool.and_eq_true, Bool.or_eq_true, Bool.not_eq_true'] at h
    obtain ⟨hcandidate, hsep⟩ := h
    have hΔ : Δ = S.context := by
      rcases hcandidate with hlisted | hadds
      · exact Expr.eq_of_isListed hcheck hlisted
      · exact (Expr.checked_of_check hcheck).eq_of_addsTo hadds
    split
    · rename_i haccepted
      rw [hΔ] at haccepted
      exact List.forall_mem_singleton.mpr (Expr.buildable_of_accepted haccepted hsep)
    · exact List.forall_mem_nil _
  · exact List.forall_mem_nil _

/-- Where axioms are in reduced form, only a goal that was stated in reduced form is known as it was
stated. -/
theorem buildable_of_lists_statement (hout : S.Outlined G) (hstated : S.AllStated)
    (haxioms : S.ReducedAxioms) (hg : S.goal? = some g)
    (hlists : S.context.lists g.goalSymbol (g.goalStatement?.getD g) = true) :
    Buildable S.context g.goalSymbol (goalTerm g) := by
  obtain ⟨s, u, t, hu⟩ := hstated.stated hg
  rw [hu.statement, Option.getD_some] at hlists
  have hreduced : u.Reduced := by
    by_contra hnot
    obtain ⟨e, he, -, hsame⟩ := (hout.lists_of_not_reduced hg hnot).mp hlists
    have hsame' := (Expr.same_iff e.2 u).mpr ((Expr.same_iff u e.2).mp hsame).symm
    exact hnot ((haxioms e he).of_same hsame')
  obtain rfl : u = t := Option.some.inj (hreduced.reduce?.symm.trans hu.reduce)
  rw [goalTerm_eq hu.term]
  exact buildable_of_lists hreduced hlists

/-- **A careful directive takes nothing for granted.** -/
theorem grants_eq_nil (hout : S.Outlined G) (hstated : S.AllStated)
    (haxioms : S.ReducedAxioms) (h : S.careful v args = true) : S.grants v args = [] := by
  rw [grants]
  cases hg : S.goal? with
  | none => rfl
  | some g =>
    rw [Option.map_some, Option.getD_some]
    refine unbuilt_eq_nil ?_
    unfold trusted
    split
    · rw [careful, hg, Option.all_some, Bool.and_eq_true] at h
      exact buildable_of_trustedBy h.1 h.2
    · cases args with
      | nil =>
        rw [List.head?_nil, trustedDone]
        split
        · rename_i hlists
          exact List.forall_mem_singleton.mpr
            (buildable_of_lists_statement hout hstated haxioms hg hlists)
        · exact List.forall_mem_nil _
      | cons c rest =>
        rw [careful, hg, Option.all_some, Bool.and_eq_true, Bool.or_eq_true] at h
        obtain ⟨hsep, hleft⟩ := h
        rw [List.head?_cons, trustedDone]
        split
        · rename_i haccepted
          refine List.forall_mem_cons.mpr ⟨Expr.buildable_of_accepted haccepted hsep, ?_⟩
          split
          · exact List.forall_mem_nil _
          · rename_i hnot
            exact buildable_of_trustedLeft (hleft.resolve_left hnot)
        · exact List.forall_mem_nil _
    · exact List.forall_mem_nil _

omit [HoleOrder] in
theorem axioms_of_update (h : S.update t = .ok S') : S'.axioms = S.axioms := by
  unfold update at h
  split at h
  · cases h
  · cases h
    rfl

/-- Only `Axiom` adds to the axioms. -/
theorem axioms_of_next? (h : S.next? v args = some S') :
    S'.axioms = S.axioms ∨ v = .posit ∧ ∃ s t, args.getLast? = some t ∧ S' = S.addAxiom s t := by
  cases moves_of_next? h with
  | goal _ hstep =>
    obtain ⟨g, -, rfl⟩ := handleGoal_cases hstep
    exact .inl rfl
  | assume hstep =>
    obtain ⟨g, m, s, l, r, g', -, -, -, hupdate⟩ := handleAssume_cases hstep
    exact .inl (axioms_of_update hupdate)
  | leadBack _ hstep =>
    obtain ⟨g, term, ps, σ, used, tree, -, -, -, -, hupdate⟩ := handleBy_cases hstep
    exact .inl (axioms_of_update hupdate)
  | done _ hstep =>
    obtain ⟨g, -, ⟨c, -, hclose⟩ | ⟨-, -, hupdate⟩⟩ := handleDone_cases hstep
    · obtain ⟨v, Δ, r, -, -, -, ⟨-, hupdate⟩ | ⟨-, m, s, l, r', -, -, -, hupdate⟩⟩ :=
        closeWith_cases hclose
      · exact .inl (axioms_of_update hupdate)
      · exact .inl (axioms_of_update hupdate)
    · exact .inl (axioms_of_update hupdate)
  | posit hstep => exact .inr ⟨rfl, handleAxiom_cases hstep⟩

theorem ReducedAxioms.next (hS : S.ReducedAxioms) (hcareful : S.careful v args = true)
    (h : S.next? v args = some S') : S'.ReducedAxioms := by
  rcases axioms_of_next? h with heq | ⟨rfl, s, t, hlast, rfl⟩
  · rw [ReducedAxioms, heq]
    exact hS
  · rw [careful, hlast, Option.all_some, decide_eq_true_eq] at hcareful
    exact List.forall_mem_append.mpr ⟨hS, List.forall_mem_singleton.mpr hcareful⟩

end GoalState

namespace Session

open GoalState (Grant)

section

variable [HoleOrder] {S : Session} {G : List Grant} {d : Directive} {ds : List Directive}

/-! ## Runs -/

/-- Whether a directive, once it has been prepared, is careful at the goals that it finds. -/
def careful (S : Session) (d : Directive) : Bool :=
  (S.carriedOut d).all fun out => S.goals.current.careful out.1 out.2

/-- Whether each of the directives is careful when its turn comes. -/
def allCareful (S : Session) : List Directive → Bool
  | [] => true
  | d :: ds => S.careful d && (S.process d).1.allCareful ds

theorem Clean.grantsAfter_eq (hS : S.Clean) (hd : ∀ a ∈ d.args, a.GoalFree) :
    S.grantsAfter G d = ((S.carriedOut d).map fun out =>
      S.goals.current.grantsAfter G out.1 out.2).getD G := by
  have hprepared := hS.prepare d.name (p := ⟨d.args, false⟩) hd hS.own_of_mem
  unfold Session.grantsAfter carriedOut
  cases hp : S.prepare d.name ⟨d.args, false⟩ S.order with
  | mk S₁ r =>
    rw [hp] at hprepared
    cases r with
    | error f => rfl
    | ok p =>
      dsimp only
      cases (Verb.ofName? d.name).filter fun v => S₁.order.contains (.own v.component) with
      | none => rfl
      | some v =>
        dsimp only
        rw [hprepared.goals]
        rfl

/-- What careful directives keep: nothing is taken for granted, every goal has its statement, and
the axioms are in reduced form. -/
structure Built (S : Session) : Prop where
  sound : S.Sound []
  stated : S.goals.current.AllStated
  reduced : S.goals.current.ReducedAxioms

theorem built_initial : initial.Built where
  sound := sound_initial
  stated := GoalState.kept_allStated.initial
  reduced := List.forall_mem_singleton.mpr rfl

/-- A careful directive takes nothing for granted in a run, whether it moves the goals or not. -/
theorem Built.grantsAfter_eq_nil (hS : S.Built) (hd : ∀ a ∈ d.args, a.GoalFree)
    (hcareful : S.careful d = true) : S.grantsAfter [] d = [] := by
  rw [hS.sound.clean.grantsAfter_eq hd]
  rw [careful] at hcareful
  cases hout : S.carriedOut d with
  | none => rfl
  | some out =>
    rw [hout, Option.all_some] at hcareful
    rw [Option.map_some, Option.getD_some, GoalState.grantsAfter]
    split
    · rfl
    · rw [GoalState.grants_eq_nil hS.sound.outlined hS.stated hS.reduced hcareful]
      split <;> rfl

/-- **A careful directive** leaves a proof that takes nothing for granted. -/
theorem Built.process (hS : S.Built) (hd : ∀ a ∈ d.args, a.GoalFree)
    (hcareful : S.careful d = true) : (S.process d).1.Built := by
  have hsound := hS.sound.process hd
  rw [hS.grantsAfter_eq_nil hd hcareful] at hsound
  rw [careful] at hcareful
  have hgoals : (S.process d).1.goals.current.AllStated ∧
      (S.process d).1.goals.current.ReducedAxioms := by
    rw [hS.sound.clean.current_process hd]
    cases hout : S.carriedOut d with
    | none => exact ⟨hS.stated, hS.reduced⟩
    | some out =>
      rw [hout, Option.all_some] at hcareful
      have hargs := hS.sound.clean.goalFree_carriedOut hd hout
      rw [Option.bind_some]
      cases hnext : S.goals.current.next? out.1 out.2 with
      | none => exact ⟨hS.stated, hS.reduced⟩
      | some T =>
        exact ⟨hS.stated.next hS.sound.outlined hargs hnext, hS.reduced.next hcareful hnext⟩
  exact ⟨hsound, hgoals.1, hgoals.2⟩

/-- **Careful directives**, any number of them, take nothing for granted. -/
theorem Built.granted_eq_nil (hS : S.Built) (hds : ∀ d ∈ ds, ∀ a ∈ d.args, a.GoalFree)
    (hcareful : S.allCareful ds = true) : S.granted [] ds = [] := by
  induction ds generalizing S with
  | nil => rfl
  | cons d ds ih =>
    obtain ⟨hd, hds⟩ := List.forall_mem_cons.mp hds
    rw [allCareful, Bool.and_eq_true] at hcareful
    rw [granted, hS.grantsAfter_eq_nil hd hcareful.1]
    exact ih (hS.process hd hcareful.1) hds hcareful.2

end

example : initial.allCareful
    [⟨"Axiom", [.const "X"]⟩, ⟨"Axiom", [.rule (.const "X") "=>" (.const "A")]⟩,
      ⟨"Goal", [.const "A"]⟩, ⟨"By", [.rule (.const "X") "=>" (.const "A")]⟩, ⟨"Done", []⟩] =
    true := by
  decide

end Session

namespace Prover

variable [HoleOrder]

/-- Whether the directives of lines from a new prover are all careful. -/
def careful (lines : List String) : Bool :=
  Session.initial.allCareful (lines.filterMap Directive.ofLine?)

/-- Careful lines take nothing for granted. -/
theorem granted_eq_nil_of_careful {lines : List String} (h : careful lines = true) :
    granted lines = [] :=
  Session.built_initial.granted_eq_nil goalFree_of_lines h

/-- **What a finished proof builds**, if all its lines are careful: after any such lines from a new
prover, a tree without open goals is buildable for `=>` from the axioms alone. -/
theorem buildable_of_careful (base : String) {lines : List String} (h : careful lines = true)
    {t : Object} (htree : ((initial base).run lines).goals.tree = some t)
    (hfinished : t.openGoals = []) :
    Buildable (.addAll [] ((initial base).run lines).goals.axioms) (some "=>") t := by
  have hsound := sound_run base lines
  rw [granted_eq_nil_of_careful h] at hsound
  have hbuildable := (hsound.outlined t htree).buildable (Object.openGoals_eq_nil_iff.mp hfinished)
  rwa [GoalState.known, List.append_nil] at hbuildable

end Prover

end RuleProver
