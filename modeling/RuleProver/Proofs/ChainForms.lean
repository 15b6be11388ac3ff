import RuleProver.Proofs.Matching
import RuleProver.Proofs.ProofRun

/-!
# The two forms of a chain

A chain is kept in two forms, which grow apart: a rule is composed with the reduced form at once,
while the unreduced form only takes it up, unreduced, in one more composition. The reduced form is
what is shown, and the unreduced form is what a proof is completed with.

Without holes the two always say the same: the unreduced form can be reduced, and what it reduces to
is the reduced form (`reduced_of_run`). To reduce it, a pass comes to the last composition once both
its sides are reduced, and these are the two rules that have been composed already.

## Main definitions

* `Chain.Action` — starting a chain, using a rule, and clearing
* `Chain.InStep` — the unreduced form reduces to the reduced form

## Main results

* `Chain.InStep.apply` — a rule extends both forms alike
* `Chain.InStep.run` — the forms are in step after every action
* `Chain.reduced_of_run` — the unreduced form of every chain reduces to the reduced form
-/

namespace RuleProver

/-- A second pass changes nothing, when there are no holes. -/
theorem Expr.Ground.reduceOnce_reduceOnce [HoleOrder] {α : Type} [Inhabited α] {t : Expr α}
    (ht : t.Ground) :
    t.erase.reduceOnce.reduceOnce = t.erase.reduceOnce :=
  (same_iff_eq _ _).mp (ground_erase.mpr ht).reduced_reduceOnce

namespace Chain

open RuleProver.Expr (comp rule const)

/-! ## Actions -/

/-- What can be done about the chain there is. -/
inductive Action where
  | start (t : Object)
  | use (rule : Object)
  | clear

namespace Action

/-- The object of an action has no holes. -/
def Ground : Action → Prop
  | .start t => t.Ground
  | .use rule => rule.Ground
  | .clear => True

/-- The chain after an action. An action that fails or breaks off leaves it as it is. -/
def run [HoleOrder] (c? : Option Chain) : Action → Option Chain
  | .start t => ((handleStart t).toOption.bind (·.2)).or c?
  | .use rule => ((handleUse c? rule).toOption.bind (·.2)).or c?
  | .clear => none

end Action

/-- The chain after any number of actions. -/
def run [HoleOrder] (actions : List Action) : Option Chain := actions.foldl Action.run none

/-! ## Forms in step -/

variable {c c' : Chain} {c? : Option Chain} {answer : Result}

/-- The forms have no holes, and a pass of reduction takes the unreduced form to the reduced one. -/
structure InStep [HoleOrder] (c : Chain) : Prop where
  ground_unreduced : c.unreduced.Ground
  erase_reduced : c.reduced.erase = c.unreduced.erase.reduceOnce

theorem InStep.ground_reduced [HoleOrder] (h : c.InStep) : c.reduced.Ground := by
  rw [← Expr.ground_erase, h.erase_reduced]
  exact (Expr.ground_erase.mpr h.ground_unreduced).reduceOnce

/-- The unreduced form reduces to the reduced form. -/
theorem InStep.exists_reduce? [HoleOrder] (h : c.InStep) :
    ∃ u, c.unreduced.reduce? = some u ∧ u.same c.reduced = true := by
  obtain ⟨u, hu, herase⟩ := Expr.exists_reduce? h.ground_unreduced.reduced_reduceOnce
  exact ⟨u, hu, (Expr.same_iff _ _).mpr (herase.trans h.erase_reduced.symm)⟩

theorem inStep_start [HoleOrder] {t : Object} (ht : t.Ground) (h : start t = .ok (c, answer)) :
    c.InStep := by
  obtain ⟨u, hu, h⟩ := bind_eq_ok_iff.mp h
  cases h
  exact ⟨ht, ht.erase_of_reduce? (Expr.reduce_eq_ok_iff.mp hu)⟩

/-- A chain that is no rule yet is composed as the rule from itself to itself. -/
theorem asRule_reduced (c : Chain) (s : String) :
    asRule s c.reduced = c.symbol?.elim (c.reduced.identity s) fun _ => c.reduced := by
  unfold asRule symbol?
  split <;> rfl

theorem extend_eq (c : Chain) (s : String) (rule : Object) :
    c.extend s rule = comp (c.symbol?.elim (c.unreduced.identity s) fun _ => c.unreduced) rule := by
  rw [extend]
  cases c.symbol? <;> rfl

theorem InStep.ground_extend [HoleOrder] (h : c.InStep) {rule : Object} (hrule : rule.Ground)
    (s : String) :
    (c.extend s rule).Ground := by
  rw [extend_eq, Expr.ground_pair]
  refine ⟨?_, hrule⟩
  cases c.symbol? with
  | none => exact Expr.ground_pair.mpr ⟨h.ground_unreduced, h.ground_unreduced⟩
  | some s' => exact h.ground_unreduced

/-- What the chain was reduces to what the next rule has been composed with. -/
theorem InStep.reduceOnce_extend [HoleOrder] (h : c.InStep) (s : String) (rule : Object) :
    (c.extend s rule).erase.reduceOnce =
      (comp (asRule s c.reduced).erase rule.erase.reduceOnce).contract := by
  rw [extend_eq, asRule_reduced, Expr.erase_node]
  refine (Expr.reduceOnce_comp _ _).trans ?_
  cases c.symbol? with
  | none =>
    simp only [Option.elim_none, Expr.identity, Expr.erase_node, List.map_cons, List.map_nil]
    rw [h.erase_reduced]
    exact congrArg _ (congrArg (comp · _) (Expr.reduceOnce_rule _ _ _))
  | some s' => rw [Option.elim_some, Option.elim_some, h.erase_reduced]

/-- What the next rule is composed with is reduced. -/
theorem InStep.reduceOnce_asRule [HoleOrder] (h : c.InStep) (s : String) :
    (asRule s c.reduced).erase.reduceOnce = (asRule s c.reduced).erase := by
  have hreduced : c.reduced.erase.reduceOnce = c.reduced.erase := by
    rw [h.erase_reduced, h.ground_unreduced.reduceOnce_reduceOnce]
  rw [asRule_reduced]
  cases c.symbol? with
  | none =>
    rw [Option.elim_none]
    exact (Expr.reduceOnce_rule _ _ _).trans (by rw [hreduced]; rfl)
  | some s' => exact hreduced

/-- **A rule extends both forms alike.** -/
theorem InStep.apply [HoleOrder] (h : c.InStep) {rule : Object} (hrule : rule.Ground)
    (happly : c.apply rule = .ok (.ok (c', answer))) : c'.InStep := by
  obtain ⟨m, s, l, r, composed, hreduce, -, hcomposed, hresult, hunreduced⟩ := apply_cases happly
  have hrule' : rule.erase.reduceOnce = (Expr.node m (.rule s) [l, r]).erase :=
    (hrule.erase_of_reduce? hreduce).symm
  have hground : (asRule s c.reduced).erase.Ground :=
    Expr.ground_erase.mpr (ground_asRule h.ground_reduced)
  have hground' : rule.erase.reduceOnce.Ground := (Expr.ground_erase.mpr hrule).reduceOnce
  have hfires : Expr.Fires (asRule s c.reduced).erase rule.erase.reduceOnce composed.erase := by
    have herase := Expr.composeRules_erase (asRule s c.reduced) (.node m (.rule s) [l, r])
    rw [hcomposed, Option.map_some, ← hrule'] at herase
    obtain ⟨a, b, d, s', ha, hb, hd⟩ := (Expr.composeRules_eq_some_iff hground hground').mp herase
    rw [ha, hb, hd]
    exact .chain a b d s'
  refine ⟨hunreduced ▸ h.ground_extend hrule s, ?_⟩
  -- both sides of the last composition are reduced, so it makes no difference that what it comes to
  -- has been reduced once more
  have hpass := hfires.reduceOnce
  rw [h.reduceOnce_asRule, hrule.reduceOnce_reduceOnce] at hpass
  have hcomposed' : composed.Ground :=
    Expr.ground_erase.mp (hfires.ground hground hground')
  calc c'.reduced.erase = composed.erase.reduceOnce := hcomposed'.erase_of_reduce? hresult
    _ = (comp (asRule s c.reduced).erase rule.erase.reduceOnce).contract :=
      (Expr.contract_of_fires hground hground' hpass).symm
    _ = c'.unreduced.erase.reduceOnce := by rw [hunreduced, h.reduceOnce_extend]

/-! ## Runs -/

theorem exists_ok_of_bind {x : Except Fault (Answer × Option Chain)}
    (h : x.toOption.bind (·.2) = some c) : ∃ a, x = .ok (a, some c) := by
  obtain ⟨⟨a, c'?⟩, hx, hc⟩ := Option.bind_eq_some_iff.mp h
  dsimp only at hc
  subst hc
  cases x with
  | error f => cases hx
  | ok built =>
    cases hx
    exact ⟨a, rfl⟩

/-- **The forms are in step after every action** if they were before. -/
theorem InStep.run [HoleOrder] (h : ∀ c ∈ c?, c.InStep) {a : Action} (ha : a.Ground) :
    ∀ c ∈ a.run c?, c.InStep := by
  intro c hc
  cases a with
  | start t =>
    rcases Option.or_eq_some_iff.mp hc with hc | ⟨-, hc⟩
    · obtain ⟨answer, hok⟩ := exists_ok_of_bind hc
      obtain ⟨result, hstart⟩ := exists_start_of_handleStart hok
      exact inStep_start ha hstart
    · exact h c hc
  | use rule =>
    rcases Option.or_eq_some_iff.mp hc with hc | ⟨-, hc⟩
    · obtain ⟨answer, hok⟩ := exists_ok_of_bind hc
      obtain ⟨c₀, result, hc₀, happly⟩ := exists_apply_of_handleUse hok
      exact (h c₀ hc₀).apply ha happly
    · exact h c hc
  | clear => cases hc

theorem inStep_foldl [HoleOrder] {actions : List Action} (hactions : ∀ a ∈ actions, a.Ground)
    (h : ∀ c ∈ c?, c.InStep) : ∀ c ∈ actions.foldl Action.run c?, c.InStep := by
  induction actions generalizing c? with
  | nil => exact h
  | cons a actions ih =>
    obtain ⟨ha, hactions⟩ := List.forall_mem_cons.mp hactions
    exact ih hactions (InStep.run h ha)

/-- **The two forms of a chain stay in step.** After any number of actions without holes there is no
chain, or its unreduced form can be reduced, and it reduces to the reduced form. -/
theorem reduced_of_run [HoleOrder] {actions : List Action} (hactions : ∀ a ∈ actions, a.Ground) :
    run actions = none ∨ ∃ c u, run actions = some c ∧ c.unreduced.reduce? = some u ∧
      u.same c.reduced = true := by
  cases hrun : run actions with
  | none => exact .inl rfl
  | some c =>
    have hstep : c.InStep :=
      inStep_foldl hactions (fun c hc => by cases hc) c hrun
    obtain ⟨u, hu, hsame⟩ := hstep.exists_reduce?
    exact .inr ⟨c, u, rfl, hu, hsame⟩

/-- A chain that starts from `A | (A => B)` and then uses `(B => C) | (C => D)` is `B => D`. -/
theorem reduced_of_run_composed :
    let actions := [.start (comp (const "A") (rule (const "A") "=>" (const "B"))),
      .use (comp (rule (const "B") "=>" (const "C")) (rule (const "C") "=>" (const "D")))]
    (∀ a ∈ actions, Action.Ground a) ∧
      ∃ c u, run actions = some c ∧ c.reduced = rule (const "B") "=>" (const "D") ∧
        c.unreduced.reduce? = some u ∧ u.same c.reduced = true := by
  intro actions
  have hactions : ∀ a ∈ actions, Action.Ground a := by
    simp [actions, Action.Ground]
  have hrun : ∃ c, run actions = some c ∧ c.reduced = rule (const "B") "=>" (const "D") :=
    ⟨_, rfl, rfl⟩
  obtain ⟨c, hc, hreduced⟩ := hrun
  rcases reduced_of_run hactions with hnone | ⟨c', u, hc', hu, hsame⟩
  · rw [hnone] at hc
    cases hc
  · obtain rfl := Option.some.inj (hc.symm.trans hc')
    exact ⟨hactions, c, u, hc, hreduced, hu, hsame⟩

end Chain

end RuleProver
