import RuleProver.Proofs.FocusScope
import RuleProver.Proofs.ProofStatement
import RuleProver.Proofs.UnreducedAxioms

/-!
# Goals that are known

A goal keeps its statement as it was given, and what is to be built for it is the reduced form of
this statement. However a goal comes about, it is made from a statement in this way: when it is
stated, when a premise is assumed, and when it is led back to the premises of a rule. So this holds
of all the goals in all the states that a prover keeps (`GoalState.kept_allStated`).

When there is no chain, `Done` closes a goal that is known. It looks up the statement as it was
given, among the left sides of the rules above the goal, which are in reduced form, and the axioms,
which are listed as they were given. A goal that was stated in reduced form is therefore closed
exactly if a check would find it listed. Any other goal is closed exactly if an axiom was stated the
same way (`Prover.succeeds_done_iff`): the goal `A | (A => B)` is not closed by the axiom `B`, but
by the axiom `A | (A => B)`, which no check would find (`Prover.detachment_done`).

## Main definitions

* `Object.Stated` — a goal with its symbol, its statement and what is to be built
* `GoalState.Kept` — properties of goals that directives keep

## Main results

* `GoalState.AllStated.next` — a directive keeps every goal with its statement
* `Prover.Reachable.goals` — what directives keep holds of all the goals that a prover keeps
* `Prover.succeeds_done_iff` — when `Done` closes a goal
-/

namespace RuleProver

/-! ## Goals with their statements -/

namespace Object

open RuleProver.Expr (GoalFree)

variable {g t u l r : Object} {s : String} [HoleOrder]

/-- A goal for the symbol `s` that was stated as `u`, with its reduced form `t` to be built. -/
structure Stated (g : Object) (s : String) (u t : Object) : Prop where
  symbol : g.goalSymbol = some s
  statement : g.goalStatement? = some u
  term : g.goalTerm? = some t
  reduce : u.reduce? = some t

/-- Every open goal of a tree was stated. -/
def StatesGoals (t : Object) : Prop := ∀ g ∈ t.openGoals, ∃ s u t', Stated g s u t'

theorem StatesGoals.of_goalFree (h : t.GoalFree) : t.StatesGoals := by
  simp [StatesGoals, openGoals_eq_nil_iff.mpr h]

theorem StatesGoals.pair {m : Note} {h : Head} (hh : h ≠ .goal) (hl : l.StatesGoals)
    (hr : r.StatesGoals) : StatesGoals (.node m h [l, r]) := by
  intro g hg
  rw [openGoals_node hh, List.flatMap_cons, List.flatMap_cons, List.flatMap_nil, List.append_nil,
    List.mem_append] at hg
  exact hg.elim (hl g) (hr g)

theorem StatesGoals.of_goal (h : Object.goal (some s) t = .ok g) : g.StatesGoals := by
  obtain ⟨u, hu, rfl⟩ := Object.goal_eq_ok_iff.mp h
  intro g' hg'
  rw [openGoals, List.mem_singleton] at hg'
  subst hg'
  exact ⟨s, t, u, rfl, rfl, rfl, hu⟩

end Object

namespace GoalState

open Object (StatesGoals Stated)

variable {S S' : GoalState} {g t u : Object} {s : String} {G : List Grant} [HoleOrder]

theorem statesGoals_premiseGoals {σ : Assignment Note} {ps : List Object} {built tree : Object}
    (h : premiseGoals (some s) σ ps built = .ok tree) (hbuilt : built.StatesGoals) :
    tree.StatesGoals := by
  induction ps generalizing built with
  | nil =>
    cases h
    exact hbuilt
  | cons p ps ih =>
    rw [premiseGoals, bind_eq_ok_iff] at h
    obtain ⟨g, hg, h⟩ := h
    exact ih h (.pair Head.noConfusion (.of_goal hg) hbuilt)

theorem statesGoals_backwardTree {σ : Assignment Note} {ps : List Object} {term rule tree : Object}
    (h : backwardTree term (some s) rule ps σ = .ok tree) (hterm : term.StatesGoals)
    (hrule : rule.StatesGoals) : tree.StatesGoals := by
  rw [backwardTree] at h
  split at h
  · have hcurrifier : (currifier s).StatesGoals := .of_goalFree (goalFree_currifier s)
    exact statesGoals_premiseGoals h
      (.pair Head.noConfusion hterm (.pair Head.noConfusion hrule hcurrifier))
  · exact statesGoals_premiseGoals h (.pair Head.noConfusion hrule hterm)

/-- Every open goal of the tree, if there is one, was stated. -/
def AllStated (S : GoalState) : Prop := ∀ t, S.tree = some t → t.StatesGoals

theorem AllStated.stated (hS : S.AllStated) (hg : S.goal? = some g) : ∃ s u t, Stated g s u t := by
  obtain ⟨tree, htree, hfirst⟩ := Option.bind_eq_some_iff.mp hg
  exact hS tree htree g (Object.mem_openGoals_of_firstGoal? hfirst)

theorem AllStated.update (hS : S.AllStated) (hg : S.goal? = some g) (h : S.update u = .ok S')
    (hu : u.StatesGoals) : S'.AllStated := by
  obtain ⟨tree, path, gs, tree', htree, hsearch, rfl⟩ := exists_exchanged_of_update hg h
  rintro t' ⟨⟩
  exact fun g' hg' => (hsearch.mem_or_mem hg').elim (hu g') (hS tree htree g')

theorem AllStated.handleAssume {arg? : Option Object} (hS : S.AllStated) (hout : S.Outlined G)
    (h : (S.handleAssume arg?).1.1 = some S') : S'.AllStated := by
  obtain ⟨g, m, s, l, r, g', hg, hterm, hg', hupdate⟩ := handleAssume_cases h
  obtain ⟨s₀, t, hgoal⟩ := hout.goalFor hg
  obtain rfl := Option.some.inj (hterm.symm.trans hgoal.term)
  have hl : StatesGoals l := .of_goalFree (Expr.goalFree_pair.mp hgoal.free).2.1
  exact hS.update hg hupdate (.pair Head.noConfusion hl (.of_goal hg'))

theorem AllStated.handleBy {rule : Object} {force? : Option Object} (hS : S.AllStated)
    (hout : S.Outlined G) (hrule : rule.GoalFree) (h : (S.handleBy rule force?).1 = some S') :
    S'.AllStated := by
  obtain ⟨g, term, ps, σ, used, tree, hg, hpremises, hused, htree, hupdate⟩ := handleBy_cases h
  obtain ⟨s, t, hgoal⟩ := hout.goalFor hg
  have hfree : (goalTerm g).GoalFree := by rw [goalTerm_eq hgoal.term]; exact hgoal.free
  have hterm : term.StatesGoals := by
    rcases premisesForGoal_cases hpremises with ⟨rfl, -⟩ | ⟨rfl, -⟩
    · exact .pair Head.noConfusion (.of_goalFree hfree) (.of_goalFree hfree)
    · exact .of_goalFree hfree
  rw [hgoal.symbol] at hused htree
  have hused' : used.StatesGoals := by
    rcases hused with ⟨rfl, -⟩ | ⟨-, hforced⟩
    · exact .of_goalFree hrule
    · exact .of_goal hforced
  exact hS.update hg hupdate (statesGoals_backwardTree htree hterm hused')

theorem AllStated.handleDone {c? : Option Object} (hS : S.AllStated) (hout : S.Outlined G)
    (hc : ∀ c, c? = some c → c.GoalFree) (h : (S.handleDone c?).1 = some S') :
    S'.AllStated := by
  obtain ⟨g, hg, ⟨c, rfl, hclose⟩ | ⟨-, -, hupdate⟩⟩ := handleDone_cases h
  · have hfree := hc c rfl
    obtain ⟨v, Δ, r, -, -, hr, hcases⟩ := closeWith_cases hclose
    rcases hcases with ⟨-, hupdate⟩ | ⟨-, m, s, l, r', rfl, -, -, hupdate⟩
    · exact hS.update hg hupdate (.of_goalFree hfree)
    · have hl := (Expr.goalFree_pair.mp (hfree.reduce? hr)).2.1
      exact hS.update hg hupdate
        (.pair Head.noConfusion (.of_goalFree hl) (.of_goalFree hfree))
  · obtain ⟨s, t, hgoal⟩ := hout.goalFor hg
    rw [goalTerm_eq hgoal.term] at hupdate
    exact hS.update hg hupdate (.of_goalFree hgoal.free)

/-- **A directive keeps every goal with its statement.** -/
theorem AllStated.next {v : Verb} {args : List Object} (hS : S.AllStated) (hout : S.Outlined G)
    (hargs : ∀ t ∈ args, t.GoalFree) (h : S.next? v args = some S') : S'.AllStated := by
  cases moves_of_next? h with
  | goal ht hstep =>
    obtain ⟨g, hg, rfl⟩ := handleGoal_cases hstep
    rintro tree ⟨⟩
    exact .of_goal hg
  | assume hstep => exact hS.handleAssume hout hstep
  | leadBack hrule hstep => exact hS.handleBy hout (hargs _ hrule) hstep
  | done hc hstep => exact hS.handleDone hout (fun c hc? => hargs c (hc c hc?)) hstep
  | posit hstep =>
    obtain ⟨s, t, -, rfl⟩ := handleAxiom_cases hstep
    exact hS

end GoalState

/-! ## Goals that are kept -/

/-- A property of goals that holds at first and that every directive keeps, where arguments have no
open goals and the tree is an outline. -/
structure GoalState.Kept [HoleOrder] (I : GoalState → Prop) : Prop where
  initial : I .initial
  next : ∀ {S S' : GoalState} {G : List GoalState.Grant} {v : Verb} {args : List Object},
    S.Outlined G → (∀ a ∈ args, a.GoalFree) → S.next? v args = some S' → I S → I S'

theorem Session.Outlines.goals_process [HoleOrder] {S : Session} {d : Directive}
    {I : GoalState → Prop}
    (hI : GoalState.Kept I) (hS : S.Outlines) (hintact : S.Intact) (hd : ∀ a ∈ d.args, a.GoalFree)
    (h : ∀ T ∈ S.goals.stack, I T) : ∀ T ∈ (S.process d).1.goals.stack, I T := by
  obtain ⟨G, hsound⟩ := hS.sound hintact
  have hprepared := hsound.clean.prepare d.name (p := ⟨d.args, false⟩) hd hsound.clean.own_of_mem
  rcases Session.process_cases hintact.order d with heq | ⟨v, p, handled, hp, heq⟩
  · rw [heq]
    exact h
  · rw [heq]
    have hperformed := Session.performed_perform (S := S.named d) hintact.chainsPremises v p.args
    generalize ((S.named d).perform v p.args).1 = S' at hperformed
    -- only a directive that moves the goals on adds to the goals that are kept
    cases hperformed with
    | move hnext =>
      refine List.forall_mem_cons.mpr ⟨?_, h⟩
      exact hI.next hsound.outlined (hprepared.args p hp) hnext (h _ hintact.goals.current_mem)
    | _ => exact h

namespace Prover

variable {P : Prover} {I : GoalState → Prop}

/-- **All goals that a prover keeps** have a property that every directive keeps. -/
theorem Reachable.goals [HoleOrder] (hI : GoalState.Kept I) (hP : P.Reachable) :
    ∀ T ∈ P.session.goals.stack, I T := by
  refine (hP.keeps (I := fun S => S.Outlines ∧ ∀ T ∈ S.goals.stack, I T) ?_ ?_ ?_).2
  · exact ⟨Session.outlines_initial, List.forall_mem_singleton.mpr hI.initial⟩
  · rintro S d hintact hd ⟨hout, hS⟩
    exact ⟨hout.process hintact hd, hout.goals_process hI hintact hd hS⟩
  · rintro S S' hsuffix ⟨hout, hS⟩
    exact ⟨hout.of_suffix hsuffix, fun T hT => hS T (hsuffix.goals.subset hT)⟩

end Prover

theorem GoalState.kept_allStated [HoleOrder] : GoalState.Kept GoalState.AllStated where
  initial := by rintro t ⟨⟩
  next hout hargs h hS := hS.next hout hargs h

/-! ## Looking up a statement -/

namespace Object

/-- The left sides of the rules above the goal in focus of an outline are in reduced form. -/
theorem Outline.reduced_of_mem_assumptions [HoleOrder] {Γ : Context Note} {s : Option String}
    {t : Object}
    {es : List (Option String × Object)} (h : Outline Γ s t) (hes : t.assumptions? = some es) :
    ∀ e ∈ es, e.2.Reduced := by
  induction h generalizing es with
  | goal =>
    cases hes
    exact List.forall_mem_nil _
  | built free =>
    rw [assumptions?_of_goalFree free] at hes
    contradiction
  | comp _ _ ihl ihr =>
    rcases Option.or_eq_some_iff.mp hes with hl | ⟨-, hr⟩
    · exact ihl hl
    · exact ihr hr
  | rule _ reduced _ ih =>
    obtain ⟨es', hes', rfl⟩ := Option.map_eq_some_iff.mp hes
    exact List.forall_mem_cons.mpr ⟨reduced, ih hes'⟩

end Object

namespace GoalState

variable {S : GoalState} {g t u tree : Object} {s : String} {G : List Grant} [HoleOrder]

/-- What is not in reduced form is listed only if it is an axiom as it stands. -/
theorem Outlined.lists_of_not_reduced (hout : S.Outlined G) (hg : S.goal? = some g)
    (hu : ¬ u.Reduced) {k : Option String} :
    S.context.lists k u = true ↔ ∃ e ∈ S.axioms, k = e.1 ∧ u.same e.2 = true := by
  obtain ⟨tree, htree, hfirst⟩ := Option.bind_eq_some_iff.mp hg
  obtain ⟨es, -, -, hes, -, -⟩ := (hout tree htree).replace hfirst
  have hreduced := (hout tree htree).reduced_of_mem_assumptions hes
  -- nothing is the same as an assumption unless it is reduced too, so only the axioms are left
  have hassumed : (Context.addAll [] es).lists k u ≠ true := by
    rw [ne_eq, Context.lists_addAll]
    rintro (hnil | ⟨e, he, -, hsame⟩)
    · simp [Context.lists, Context.get?] at hnil
    · have hsame' := (Expr.same_iff e.2 u).mpr ((Expr.same_iff u e.2).mp hsame).symm
      exact hu ((hreduced e he).of_same hsame')
  rw [context_eq htree hes, Context.lists_addAll, or_iff_right hassumed]

/-! ## `Done` without a candidate -/

theorem close_snd (htree : S.tree = some tree) : (S.close t).2 =
    (Object.replaceGoal t tree).reduce.map fun u => .done (completed u) := by
  rw [close, update, htree]
  dsimp only [bind, Except.bind]
  rw [Option.getD_some]
  cases (Object.replaceGoal t tree).reduce <;> rfl

/-- Without a candidate the goal is closed when its statement is listed, and `Done` succeeds if the
tree that is left can be shown reduced. -/
theorem succeeds_handleDone_none (hg : S.goal? = some g) (htree : S.tree = some tree)
    (hstated : g.Stated s u t) : Succeeds (S.handleDone none).2 ↔
      S.context.lists (some s) u = true ∧ ∃ n, (Object.replaceGoal t tree).reduce? = some n := by
  have hdone : S.handleDone none = if S.context.lists (some s) u then S.close t
      else .stay (.failed (.about g "Goal not completed: []")) := by
    rw [handleDone, hg]
    dsimp only
    rw [hstated.symbol, hstated.statement, hstated.term]
    rfl
  rw [hdone]
  split
  · rename_i hlists
    rw [close_snd htree, and_iff_right hlists, Expr.reduce]
    cases (Object.replaceGoal t tree).reduce? with
    | none => simp [Except.map, Succeeds]
    | some n => simp [Except.map, Succeeds, Answer.done]
  · rename_i hlists
    simp [hlists, Step.stay, Succeeds, Answer.failed]

end GoalState

namespace Session

variable {S : Session}

theorem prepare_done [HoleOrder] (hS : S.order = initial.order) (hchain : S.chain.current = none) :
    S.prepare "Done" ⟨[], false⟩ S.order = (S, .ok ⟨[], false⟩) := by
  suffices h : S.prepare "Done" ⟨[], false⟩ (standardOrder.map .own) = (S, .ok ⟨[], false⟩) from
    (congrArg (S.prepare "Done" ⟨[], false⟩) hS).trans h
  have hnames : prepareNames S.aliases "Done" [] = (S.aliases, []) := rfl
  have hnumerals : Expr.toSuccessorsAll ([] : List Object) = .ok [] := rfl
  simp [standardOrder, prepare, prepareIn, prepareOwn, prepareRule, prepareNumerals,
    prepareWarning, hchain, hnames, hnumerals, Except.map]

/-- When there is no chain, `Done` is carried out without a candidate. -/
theorem succeeds_process_done [HoleOrder] (hS : S.order = initial.order)
    (hchain : S.chain.current = none) :
    Succeeds (S.process ⟨"Done", []⟩).2 ↔ Succeeds (S.goals.current.handleDone none).2 := by
  have hverb : Verb.ofName? "Done" = some .done := rfl
  rw [process, prepare_done hS hchain]
  dsimp only
  rw [hverb, Option.filter_some, if_pos (contains_component hS .done)]
  dsimp only
  have hperform : S.perform .done [] = ((S.moveGoals (S.goals.current.handleDone none)).1,
      (S.goals.current.handleDone none).2) := rfl
  rw [hperform]
  cases (S.goals.current.handleDone none).2 with
  | error f => simp [Succeeds]
  | ok a => simp [Succeeds]

end Session

namespace Prover

variable {P : Prover} {g : Object}

/-- **When `Done` closes a goal**, if there is no chain to close it with. In every state that a
prover reaches, the goal in focus has a symbol, and what is to be built for it is the reduced form
of its statement. If the goal was stated in reduced form, it is closed when this is listed for its
symbol, as the first thing that a check looks for. If not, it is closed when there is an axiom that
was stated just like the goal. `Done` succeeds if moreover the tree that is left can be reduced, in
order to be shown. -/
theorem succeeds_done_iff [HoleOrder] (hP : P.Reachable)
    (hg : P.session.goals.current.goal? = some g) (hchain : P.session.chain.current = none) :
    ∃ s u t tree, g.Stated s u t ∧ P.session.goals.current.tree = some tree ∧
      u.isListed (some s) P.session.goals.current.context =
        P.session.goals.current.context.lists (some s) t ∧
      (Succeeds (P.session.process ⟨"Done", []⟩).2 ↔
        (∃ n, (Object.replaceGoal t tree).reduce? = some n) ∧
          (u.Reduced ∧ P.session.goals.current.context.lists (some s) t = true ∨
            ¬ u.Reduced ∧ ∃ e ∈ P.session.goals.current.axioms, some s = e.1 ∧
              u.same e.2 = true)) := by
  have hintact := hP.intact
  obtain ⟨tree, htree, -⟩ := Option.bind_eq_some_iff.mp hg
  obtain ⟨s, u, t, hstated⟩ :=
    (hP.goals GoalState.kept_allStated _ hintact.goals.current_mem).stated hg
  obtain ⟨G, hout⟩ := hP.outlines.goals _ hintact.goals.current_mem
  refine ⟨s, u, t, tree, hstated, htree, ?_, ?_⟩
  · rw [Expr.isListed, hstated.reduce, Option.any_some]
  · rw [Session.succeeds_process_done hintact.order hchain,
      GoalState.succeeds_handleDone_none hg htree hstated, and_comm, and_congr_right_iff]
    rintro -
    by_cases hu : u.Reduced
    · obtain rfl : u = t := Option.some.inj (hu.reduce?.symm.trans hstated.reduce)
      simp [hu]
    · simp [hu, hout.lists_of_not_reduced hg hu]

/-! ### An assumption, and statements that are not in reduced form -/

open GoalState (detachment)

theorem parse_goal_AA : Directive.parse "Goal A => A" =
    .ok (some ⟨"Goal", [.rule (.const "A") "=>" (.const "A")]⟩) :=
  Directive.parse_of_readAll
    [⟨.symbol, "Goal", 0⟩, ⟨.symbol, "A", 5⟩, ⟨.symbol, "=>", 7⟩, ⟨.symbol, "A", 10⟩]
    (by cbv) (by cbv) (by cbv)

theorem parse_axiom_B : Directive.parse "Axiom B" = .ok (some ⟨"Axiom", [.const "B"]⟩) :=
  Directive.parse_of_readAll [⟨.symbol, "Axiom", 0⟩, ⟨.symbol, "B", 6⟩] (by cbv) (by cbv) (by cbv)

theorem parse_axiom_detachment :
    Directive.parse "Axiom A | (A => B)" = .ok (some ⟨"Axiom", [detachment]⟩) :=
  Directive.parse_of_readAll
    [⟨.symbol, "Axiom", 0⟩, ⟨.symbol, "A", 6⟩, ⟨.pipe, "|", 8⟩, ⟨.openParen, "(", 10⟩,
      ⟨.symbol, "A", 11⟩, ⟨.symbol, "=>", 13⟩, ⟨.symbol, "B", 16⟩, ⟨.closeParen, ")", 17⟩]
    (by cbv) (by cbv) (by cbv)

theorem parse_goal_detachment :
    Directive.parse "Goal A | (A => B)" = .ok (some ⟨"Goal", [detachment]⟩) :=
  Directive.parse_of_readAll
    [⟨.symbol, "Goal", 0⟩, ⟨.symbol, "A", 5⟩, ⟨.pipe, "|", 7⟩, ⟨.openParen, "(", 9⟩,
      ⟨.symbol, "A", 10⟩, ⟨.symbol, "=>", 12⟩, ⟨.symbol, "B", 15⟩, ⟨.closeParen, ")", 16⟩]
    (by cbv) (by cbv) (by cbv)

/-- The state after `Goal A => A` and `Assume`. -/
def assumed : Prover := (initial "").replay
  [.direct ⟨"Goal", [.rule (.const "A") "=>" (.const "A")]⟩ .succeeded,
    .direct ⟨"Assume", []⟩ .succeeded]

theorem reachable_assumed : assumed.Reachable := by
  have hruns : Runs (initial "") _ assumed :=
    (Runs.start.direct parse_goal_AA (by decide) rfl).direct parse_assume (by decide) rfl
  exact reachable_iff_runs.mpr ⟨"", _, hruns⟩

/-- `A` has been assumed, and closes the goal `A`. -/
theorem assumed_done : assumed.Reachable ∧ assumed.session.chain.current = none ∧
    Succeeds (assumed.session.process ⟨"Done", []⟩).2 := by
  obtain ⟨s, u, t, tree, hstated, htree, -, hdone⟩ := succeeds_done_iff reachable_assumed rfl rfl
  refine ⟨reachable_assumed, rfl, hdone.mpr ?_⟩
  obtain rfl := Option.some.inj hstated.symbol
  obtain rfl := Option.some.inj hstated.statement
  obtain rfl := Option.some.inj hstated.term
  obtain rfl := Option.some.inj htree
  exact ⟨⟨_, rfl⟩, .inl ⟨rfl, rfl⟩⟩

/-- The state after stating an axiom, and then the goal `A | (A => B)`. -/
def afterAxiom [HoleOrder] (t : Object) : Prover := (initial "").replay
  [.direct ⟨"Axiom", [t]⟩ .succeeded, .direct ⟨"Goal", [detachment]⟩ .succeeded]

/-- `A | (A => B)` reduces to `B`. As a goal it is not closed when `B` is an axiom, and it is closed
when it is an axiom itself, though `B` is not listed then. -/
theorem detachment_done :
    (afterAxiom (.const "B")).Reachable ∧ (afterAxiom detachment).Reachable ∧
      (afterAxiom (.const "B")).session.goals.current.context.lists (some "=>")
        (.const "B") = true ∧
      ¬ Succeeds ((afterAxiom (.const "B")).session.process ⟨"Done", []⟩).2 ∧
      (afterAxiom detachment).session.goals.current.context.lists (some "=>")
        (.const "B") = false ∧
      Succeeds ((afterAxiom detachment).session.process ⟨"Done", []⟩).2 := by
  have hlisted : Runs (initial "") _ (afterAxiom (.const "B")) :=
    (Runs.start.direct parse_axiom_B (by decide) rfl).direct parse_goal_detachment (by decide) rfl
  have hgiven : Runs (initial "") _ (afterAxiom detachment) :=
    (Runs.start.direct parse_axiom_detachment (by decide) rfl).direct parse_goal_detachment
      (by decide) rfl
  refine ⟨reachable_iff_runs.mpr ⟨"", _, hlisted⟩, reachable_iff_runs.mpr ⟨"", _, hgiven⟩,
    rfl, ?_, rfl, ⟨_, rfl, rfl⟩⟩
  rintro ⟨a, ha, hsuccess⟩
  cases ha
  cases hsuccess

end Prover

end RuleProver
