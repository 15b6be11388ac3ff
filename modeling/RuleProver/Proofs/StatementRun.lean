import RuleProver.Proofs.ProofRun
import RuleProver.Proofs.ProofStatement

/-!
# What a run states

A goal is stated in the middle of a run, and other directives follow. Every one of them that
succeeds leaves a tree, and this tree should still state the goal: with its open goals taken for
what is to be built there, it should reduce to what the goal reduces to. It does, as long as every
rule that leads a goal back leads straight to it (`presumed_same_goal`).

There is a run that loses its statement for each of the ways in which a rule can be accepted that
does not lead straight to the goal in focus (`statement_lost`).

## Main definitions

* `Session.carriedOut` — what a directive asks for, its arguments prepared
* `Session.AllDirect` — directives that are all direct when their turn comes

## Main results

* `Session.Sound.proving_process`, `Session.Sound.proving_run` — one directive, and any number
* `Prover.presumed_same_goal` — what a tree reduces to after a goal without holes
-/

namespace RuleProver

namespace GoalState

open RuleProver.Expr (Ground)

variable {S : GoalState} {rule t : Object}

theorem direct_leadBack [HoleOrder] (hrule : rule.Ground) (hstraight : S.LeadsStraight rule) :
    S.Direct .leadBack [rule] where
  verb := Verb.noConfusion
  ground _ := List.forall_mem_singleton.mpr hrule
  unforced rule' force _ hargs := nomatch hargs
  straight rule' rest _ hargs _ := by
    cases hargs
    exact hstraight

/-- A goal without holes can always be stated. -/
theorem exists_handleGoal [HoleOrder] (ht : t.Ground) : ∃ S', (S.handleGoal t).1 = some S' := by
  obtain ⟨v, hv, -⟩ := Expr.exists_reduce? ht.reduced_reduceOnce
  rw [handleGoal, setGoal, Object.goal, Object.goal?, hv]
  exact ⟨_, rfl⟩

end GoalState

namespace Session

open GoalState (Grant)

variable {S : Session} {G : List Grant} {n : Expr Unit} {d : Directive} {ds : List Directive}
  [HoleOrder]

/-! ## One directive -/

/-- The verb of a directive and its arguments as they have been prepared, unless the preparation
fails or no component of the session knows the directive. -/
def carriedOut (S : Session) (d : Directive) : Option (Verb × List Object) :=
  match S.prepare d.name ⟨d.args, false⟩ S.order with
  | (_, .error _) => none
  | (S, .ok p) =>
    ((Verb.ofName? d.name).filter fun v => S.order.contains (.own v.component)).map (·, p.args)

theorem Clean.goalFree_carriedOut (hS : S.Clean) (hd : ∀ a ∈ d.args, a.GoalFree) {v : Verb}
    {args : List Object} (h : S.carriedOut d = some (v, args)) : ∀ a ∈ args, a.GoalFree := by
  have hprepared := hS.prepare d.name (p := ⟨d.args, false⟩) hd hS.own_of_mem
  unfold carriedOut at h
  split at h
  · contradiction
  · rename_i S₁ p heq
    rw [heq] at hprepared
    obtain ⟨v', -, hv'⟩ := Option.map_eq_some_iff.mp h
    cases hv'
    exact hprepared.args p rfl

/-- The goals move on as what is carried out says. -/
theorem Clean.current_process (hS : S.Clean) (hd : ∀ a ∈ d.args, a.GoalFree) :
    (S.process d).1.goals.current = ((S.carriedOut d).bind fun out =>
      S.goals.current.next? out.1 out.2).getD S.goals.current := by
  have hprepared := hS.prepare d.name (p := ⟨d.args, false⟩) hd hS.own_of_mem
  unfold Session.process carriedOut
  cases hp : S.prepare d.name ⟨d.args, false⟩ S.order with
  | mk S₁ r =>
    rw [hp] at hprepared
    cases r with
    | error f => exact congrArg History.current hprepared.goals
    | ok p =>
      dsimp only
      cases (Verb.ofName? d.name).filter fun v => S₁.order.contains (.own v.component) with
      | none => exact congrArg History.current hprepared.goals
      | some v =>
        have hcurrent := (performed_perform hprepared.clean.chainsPremises v p.args).current
        rw [hprepared.goals] at hcurrent
        dsimp only
        split
        · rename_i S₂ f heq
          rw [heq] at hcurrent
          exact hcurrent
        · rename_i S₂ a heq
          rw [heq] at hcurrent
          exact hcurrent

/-- **A direct directive keeps the statement of a proof.** -/
theorem Sound.proving_process (hS : S.Sound G) (hproving : S.goals.current.Proving n)
    (hd : ∀ a ∈ d.args, a.GoalFree)
    (hdirect : ∀ v args, S.carriedOut d = some (v, args) → S.goals.current.Direct v args) :
    (S.process d).1.goals.current.Proving n := by
  rw [hS.clean.current_process hd]
  cases hout : S.carriedOut d with
  | none => exact hproving
  | some out =>
    obtain ⟨v, args⟩ := out
    have hargs := hS.clean.goalFree_carriedOut hd hout
    rw [Option.bind_some]
    cases hnext : S.goals.current.next? v args with
    | none =>
      rw [Option.getD_none]
      exact hproving
    | some S' =>
      rw [Option.getD_some]
      exact hproving.next (hdirect v args hout) hargs hnext

/-! ## Runs -/

/-- Each of the directives is direct at the goals that it finds when its turn comes. -/
def AllDirect (S : Session) : List Directive → Prop
  | [] => True
  | d :: ds => (∀ v args, S.carriedOut d = some (v, args) → S.goals.current.Direct v args) ∧
      (S.process d).1.AllDirect ds

theorem allDirect_cons (v : Verb) (args : List Object) (hout : S.carriedOut d = some (v, args))
    (hdirect : S.goals.current.Direct v args) (hds : (S.process d).1.AllDirect ds) :
    S.AllDirect (d :: ds) := by
  refine ⟨fun v' args' hout' => ?_, hds⟩
  obtain ⟨rfl, rfl⟩ := Prod.mk.inj (Option.some.inj (hout.symm.trans hout'))
  exact hdirect

/-- Direct directives, one after the other, keep the statement. -/
theorem Sound.proving_run (hS : S.Sound G) (hproving : S.goals.current.Proving n)
    (hds : ∀ d ∈ ds, ∀ a ∈ d.args, a.GoalFree) (hdirect : S.AllDirect ds) :
    (S.run ds).goals.current.Proving n := by
  induction ds generalizing S G with
  | nil => exact hproving
  | cons d ds ih =>
    obtain ⟨hd, hds⟩ := List.forall_mem_cons.mp hds
    obtain ⟨hdirect, hrest⟩ := hdirect
    exact ih (hS.process hd) (hS.proving_process hproving hd hdirect) hds hrest

/-- Stating a goal without holes starts a proof of it. -/
theorem Sound.proving_of_goal (hS : S.Sound G) (hd : ∀ a ∈ d.args, a.GoalFree) {g : Object}
    (hout : S.carriedOut d = some (.goal, [g])) (hg : g.Ground) :
    (S.process d).1.goals.current.Proving g.erase.reduceOnce := by
  have hfree : g.GoalFree := hS.clean.goalFree_carriedOut hd hout g List.mem_cons_self
  obtain ⟨S', hS'⟩ := GoalState.exists_handleGoal (S := S.goals.current) hg
  have hnext : S.goals.current.next? .goal [g] = some S' := hS'
  rw [hS.clean.current_process hd, hout, Option.bind_some, hnext, Option.getD_some]
  exact GoalState.proving_of_handleGoal hS' hg hfree

end Session

namespace Prover

theorem run_append [HoleOrder] (P : Prover) (lines lines' : List String) :
    P.run (lines ++ lines') = (P.run lines).run lines' :=
  List.foldl_append

theorem goalFree_of_lines {lines : List String} :
    ∀ d ∈ lines.filterMap Directive.ofLine?, ∀ a ∈ d.args, a.GoalFree := by
  intro d hd
  obtain ⟨line, -, hline⟩ := List.mem_filterMap.mp hd
  exact Directive.goalFree_of_parse (Directive.parse_of_ofLine? hline)

/-- The session after lines from a new prover is sound. -/
theorem sound_run [HoleOrder] (base : String) (lines : List String) :
    ((initial base).run lines).session.Sound (granted lines) := by
  rw [session_run]
  exact Session.sound_initial.run goalFree_of_lines

/-- **What a proof states.** After any lines, let a goal without holes be stated, and let only
direct directives follow. Then there is a tree, and with its open goals taken for built it reduces,
within the step limit, to what the goal reduces to. -/
theorem presumed_same_goal [HoleOrder] (base : String) (before : List String) {line : String}
    (after : List String) {d : Directive} {g : Object} (hline : Directive.ofLine? line = some d)
    (hout : ((initial base).run before).session.carriedOut d = some (.goal, [g])) (hg : g.Ground)
    (hafter : ((initial base).run (before ++ [line])).session.AllDirect
      (after.filterMap Directive.ofLine?)) :
    ∃ t u v : Object, ((initial base).run (before ++ line :: after)).goals.tree = some t ∧
      t.presumed.reduce? = some u ∧ g.reduce? = some v ∧ u.same v = true := by
  have hd : ∀ a ∈ d.args, a.GoalFree :=
    Directive.goalFree_of_parse (Directive.parse_of_ofLine? hline)
  have hstated : ((initial base).run (before ++ [line])).goals.Proving g.erase.reduceOnce := by
    rw [goals, run_append, session_run, List.filterMap_cons, hline]
    exact (sound_run base before).proving_of_goal hd hout hg
  have hproving : ((initial base).run (before ++ line :: after)).goals.Proving
      g.erase.reduceOnce := by
    rw [List.append_cons, goals, run_append, session_run]
    exact (sound_run base _).proving_run hstated goalFree_of_lines hafter
  obtain ⟨t, htree, hproves⟩ := hproving
  obtain ⟨u, v, hreduce⟩ := hproves.exists_reduce? hg
  exact ⟨t, u, v, htree, hreduce⟩

/-- The rule that leads from `P` and `Q` to `A`. -/
abbrev fromBoth : Object := .rule (.const "P") "=>" (.rule (.const "Q") "=>" (.const "A"))

set_option maxRecDepth 4000 in
/-- A goal that has been led back to two premises, both of them open, is still what is stated. -/
theorem presumed_same_goal_of_fromBoth :
    ∃ t u : Object,
      ((initial "").run ["Axiom P => Q => A", "Goal A", "By P => Q => A"]).goals.tree = some t ∧
        t.openGoals.length = 2 ∧ t.presumed.reduce? = some u ∧
        u.same (.const "A" : Object) = true := by
  have hrule : Directive.ofLine? "Axiom P => Q => A" = some ⟨"Axiom", [fromBoth]⟩ :=
    Directive.ofLine?_of_readAll
      [⟨.symbol, "Axiom", 0⟩, ⟨.symbol, "P", 6⟩, ⟨.symbol, "=>", 8⟩, ⟨.symbol, "Q", 11⟩,
        ⟨.symbol, "=>", 13⟩, ⟨.symbol, "A", 16⟩]
      (by cbv) (by cbv) (by cbv) (by decide)
  have hby : Directive.ofLine? "By P => Q => A" = some ⟨"By", [fromBoth]⟩ :=
    Directive.ofLine?_of_readAll
      [⟨.symbol, "By", 0⟩, ⟨.symbol, "P", 3⟩, ⟨.symbol, "=>", 5⟩, ⟨.symbol, "Q", 8⟩,
        ⟨.symbol, "=>", 10⟩, ⟨.symbol, "A", 13⟩]
      (by cbv) (by cbv) (by cbv) (by decide)
  have hbefore : ["Axiom P => Q => A"].filterMap Directive.ofLine? = [⟨"Axiom", [fromBoth]⟩] := by
    simp only [List.filterMap_cons, List.filterMap_nil, hrule]
  have hstated : (["Axiom P => Q => A"] ++ ["Goal A"]).filterMap Directive.ofLine? =
      [⟨"Axiom", [fromBoth]⟩, ⟨"Goal", [.const "A"]⟩] := by
    simp only [List.filterMap_append, hbefore, List.filterMap_cons, List.filterMap_nil,
      ofLine?_goal]
    rfl
  have hafter : ["By P => Q => A"].filterMap Directive.ofLine? = [⟨"By", [fromBoth]⟩] := by
    simp only [List.filterMap_cons, List.filterMap_nil, hby]
  have hout : ((initial "").run ["Axiom P => Q => A"]).session.carriedOut
      ⟨"Goal", [.const "A"]⟩ = some (.goal, [.const "A"]) := by
    rw [session_run, hbefore]
    rfl
  have hdirect : ((initial "").run (["Axiom P => Q => A"] ++ ["Goal A"])).session.AllDirect
      (["By P => Q => A"].filterMap Directive.ofLine?) := by
    rw [session_run, hstated, hafter]
    refine Session.allDirect_cons .leadBack [fromBoth] rfl ?_ trivial
    refine GoalState.direct_leadBack (by decide) fun g hg => ?_
    cases hg
    exact ⟨fromBoth, rfl, .two rfl (by rintro ⟨m, a, b, ⟨⟩⟩)⟩
  obtain ⟨t, u, v, htree, hu, hv, hsame⟩ := presumed_same_goal "" ["Axiom P => Q => A"]
    ["By P => Q => A"] ofLine?_goal hout (by decide) hdirect
  obtain rfl : v = .const "A" := (Option.some.inj hv).symm
  refine ⟨t, u, htree, ?_, hu, hsame⟩
  rw [goals, session_run, List.append_cons, List.filterMap_append, hstated, hafter] at htree
  cases htree
  rfl

end Prover

namespace Session

/-- States the goal `g` and leads it back by a rule that is an axiom. -/
abbrev leadingRun (rule g : Object) : List Directive :=
  [⟨"Axiom", [rule]⟩, ⟨"Goal", [g]⟩, ⟨"By", [rule]⟩]

/-- Leading the goal `g` back by a rule leaves a tree that reduces, with its open goals taken for
built, to something else than `g`. -/
def LosesStatement [HoleOrder] (rule g : Object) : Prop :=
  ∃ t u v, (initial.run (leadingRun rule g)).goals.current.tree = some t ∧
    t.presumed.reduce? = some u ∧ g.reduce? = some v ∧ u.same v = false

/-- Three goals that are lost. The rule leads to the left side of the goal only, or under another
symbol than the goal's, or from two premises to a goal that is a rule. -/
theorem statement_lost :
    LosesStatement (.rule (.const "X") "=>" (.const "A")) (.rule (.const "A") "=>" (.const "B")) ∧
      LosesStatement (.rule (.const "X") "->" (.const "A")) (.const "A") ∧
      LosesStatement (.rule (.const "P") "=>" (.rule (.const "Q") "=>"
        (.rule (.const "A") "=>" (.const "B")))) (.rule (.const "A") "=>" (.const "B")) := by
  refine ⟨⟨_, _, _, rfl, rfl, rfl, ?_⟩, ⟨_, _, _, rfl, rfl, rfl, ?_⟩,
    ⟨_, _, _, rfl, (Option.some_get (by decide +kernel)).symm, rfl, ?_⟩⟩
  · decide +kernel
  · decide +kernel
  · decide +kernel

end Session

end RuleProver
