import RuleProver.Proofs.ProofStatement

/-!
# The tree that leads a goal back

Leading a goal back to the premises of a rule puts a tree in its place, in which goals for the
premises are composed around the rule. Here the tree is looked at with every goal settled, which
means that what is to be built stands in its place. The rule itself may have goals inside, so goals
are settled at any depth.

A step of rewriting changes nothing about what an expression without holes comes to once its goals
are settled (`Expr.Rewrites.settles_eq`). So an argument that reduces to a rule comes to this rule,
with the goals in its premises settled. Composed with the conclusion, with the help of the currifier
when there are two premises, it still comes to the rule (`GoalState.exists_built`), and then the
premises are used up one by one (`Expr.useUp_fromPremises`). What is left is the goal.

## Main definitions

* `Expr.settled` — an expression with what is to be built in place of every goal
* `Expr.settles` — what it comes to in one pass of reduction
* `Expr.fromPremises` — the rule from some premises to a conclusion

## Main results

* `Expr.Rewrites.settles_eq` — rewriting keeps what an expression settles to
* `GoalState.backwardTree_settled_reduces` — the tree that leads a goal back reduces to the goal
-/

namespace RuleProver

namespace Expr

open Relation

variable {α : Type}

/-! ## Settling goals -/

mutual

/-- The expression with what is to be built in place of every goal, at any depth. -/
def settled : Expr α → Expr α
  | .hole m x => .hole m x
  | .node _ .goal (t :: _) => settled t
  | .node m h cs => .node m h (settledAll cs)

/-- The expressions of a list with what is to be built in place of every goal. -/
def settledAll : List (Expr α) → List (Expr α)
  | [] => []
  | c :: cs => settled c :: settledAll cs

end

theorem settledAll_eq_map (cs : List (Expr α)) : settledAll cs = cs.map settled := by
  induction cs with
  | nil => rw [settledAll, List.map_nil]
  | cons c cs ih => rw [settledAll, ih, List.map_cons]

theorem settled_hole (m : α) (x : String) : (hole m x).settled = .hole m x := by rw [settled]

theorem settled_goal (m : α) (t : Expr α) (ts : List (Expr α)) :
    (node m .goal (t :: ts)).settled = t.settled := by rw [settled]

theorem settled_goal_nil (m : α) : (node m .goal []).settled = .node m .goal [] := by
  rw [settled, settledAll]
  simp

theorem settled_node {m : α} {h : Head} (hh : h ≠ .goal) (cs : List (Expr α)) :
    (node m h cs).settled = .node m h (cs.map settled) := by
  rw [settled, settledAll_eq_map]
  intro t ts heq
  exact absurd heq hh

theorem settled_of_goalFree {t : Expr α} (ht : t.GoalFree) : t.settled = t := by
  induction t with
  | hole m x => rw [settled_hole]
  | node m h cs ih =>
    rw [goalFree_node] at ht
    rw [settled_node ht.1]
    exact congrArg _ ((List.map_congr_left fun c hc => ih c hc (ht.2 c hc)).trans (List.map_id' cs))

theorem erase_settled (t : Expr α) : t.settled.erase = t.erase.settled := by
  induction t with
  | hole m x => rw [settled_hole, erase_hole, settled_hole]
  | node m h cs ih =>
    by_cases hh : h = .goal
    · subst hh
      cases cs with
      | nil => rw [settled_goal_nil, erase_node, List.map_nil, settled_goal_nil]
      | cons c cs =>
        rw [settled_goal, erase_node, List.map_cons, settled_goal]
        exact ih c List.mem_cons_self
    · rw [settled_node hh, erase_node, erase_node, settled_node hh, List.map_map, List.map_map]
      exact congrArg _ (List.map_congr_left ih)

theorem Ground.settled {t : Expr α} (ht : t.Ground) : t.settled.Ground := by
  induction t with
  | hole m x => rwa [settled_hole]
  | node m h cs ih =>
    rw [ground_node] at ht
    by_cases hh : h = .goal
    · subst hh
      cases cs with
      | nil => rwa [settled_goal_nil, ground_node]
      | cons c cs =>
        rw [settled_goal]
        exact ih c List.mem_cons_self (ht c List.mem_cons_self)
    · rw [settled_node hh, ground_node]
      simp only [List.forall_mem_map]
      exact fun c hc => ih c hc (ht c hc)

theorem Fires.settled {l r v : Expr Unit} (h : Fires l r v) :
    Fires l.settled r.settled v.settled := by
  cases h with
  | chain a b d s =>
    simp only [settled_node (h := .rule s) Head.noConfusion, List.map_cons, List.map_nil]
    exact .chain _ _ _ s
  | apply l d s =>
    simp only [settled_node (h := .rule s) Head.noConfusion, List.map_cons, List.map_nil]
    exact .apply _ _ s

/-! ## What an expression settles to -/

variable [HoleOrder]

/-- What an expression comes to in one pass of reduction, with its goals settled. -/
def settles (t : Expr α) : Expr Unit := t.erase.settled.reduceOnce

theorem settles_congr {t u : Expr α} (h : t.same u = true) : t.settles = u.settles := by
  rw [settles, settles, (same_iff t u).mp h]

theorem settles_goal (m : α) (t : Expr α) (ts : List (Expr α)) :
    (node m .goal (t :: ts)).settles = t.settles := by
  rw [settles, erase_node, List.map_cons, settled_goal, settles]

theorem settles_node {m : α} {h : Head} (hh : h ≠ .goal) (cs : List (Expr α)) :
    (node m h cs).settles = contract (.node () h (cs.map settles)) := by
  rw [settles, erase_node, settled_node hh, reduceOnce_node_unit, List.map_map, List.map_map]
  rfl

theorem settles_comp (m : α) (l r : Expr α) :
    (node m .comp [l, r]).settles = contract (comp l.settles r.settles) :=
  settles_node Head.noConfusion [l, r]

theorem settles_rule (m : α) (l : Expr α) (s : String) (r : Expr α) :
    (node m (.rule s) [l, r]).settles = rule l.settles s r.settles := by
  rw [settles_node Head.noConfusion, contract_of_ne Head.noConfusion]
  rfl

theorem settles_of_goalFree {t : Expr α} (ht : t.GoalFree) :
    t.settles = t.erase.reduceOnce := by
  rw [settles, ← erase_settled, settled_of_goalFree ht]

theorem Ground.settles {t : Expr α} (ht : t.Ground) : t.settles.Ground :=
  (ground_erase.mpr ht).settled.reduceOnce

variable [Inhabited α]

/-- **Rewriting keeps what an expression settles to**, when there are no holes. -/
theorem Rewrites.settles_eq {t u : Expr α} (h : t.Rewrites u) (ht : t.Ground) :
    t.settles = u.settles := by
  induction h with
  | @root m l r v hv =>
    obtain ⟨hl, hr⟩ := ground_pair.mp ht
    rw [settles_comp]
    exact contract_of_fires hl.settles hr.settles (fires_of_compose hl hr hv).settled.reduceOnce
  | @child m h before after c d hcd ih =>
    have hcd := ih (ground_node.mp ht _ (by simp))
    by_cases hh : h = .goal
    · subst hh
      -- only the first child of a goal counts
      cases before with
      | nil => simpa only [List.nil_append, settles_goal] using hcd
      | cons b before => simp only [List.cons_append, settles_goal]
    · simp only [settles_node hh, List.map_append, List.map_cons, hcd]

theorem settles_eq_of_reflTransGen {t u : Expr α} (h : ReflTransGen Rewrites t u)
    (ht : t.Ground) : t.settles = u.settles := by
  induction h with
  | refl => rfl
  | tail hsteps hstep ih => exact ih.trans (hstep.settles_eq (ground_of_reflTransGen hsteps ht))

/-! ## Rules from premises -/

/-- The rule that leads from premises to a conclusion, all under the symbol `s`. -/
def fromPremises (s : String) (ps : List (Expr α)) (q : Expr α) : Expr α :=
  ps.foldr (fun p r => rule p s r) q

omit [HoleOrder] in
theorem fromPremises_cons (s : String) (p : Expr α) (ps : List (Expr α)) (q : Expr α) :
    fromPremises s (p :: ps) q = rule p s (fromPremises s ps q) :=
  rfl

theorem reduced_of_mem_fromPremises {s : String} {ps : List (Expr α)} {q p : Expr α}
    (h : (fromPremises s ps q).Reduced) (hp : p ∈ ps) : p.Reduced := by
  induction ps with
  | nil => simp at hp
  | cons p' ps ih =>
    obtain ⟨hp', hps⟩ := Reduced.sides h
    obtain rfl | hp := List.mem_cons.mp hp
    · exact hp'
    · exact ih hps hp

omit [HoleOrder] in
theorem ground_fromPremises {s : String} {ps : List (Expr α)} {q : Expr α} :
    (fromPremises s ps q).Ground ↔ (∀ p ∈ ps, p.Ground) ∧ q.Ground := by
  induction ps with
  | nil => simp [fromPremises]
  | cons p ps ih =>
    rw [fromPremises_cons, ground_pair, ih, List.forall_mem_cons, and_assoc]

theorem settles_fromPremises (s : String) (ps : List (Expr α)) (q : Expr α) :
    (fromPremises s ps q).settles = fromPremises s (ps.map settles) q.settles := by
  induction ps with
  | nil => rfl
  | cons p ps ih => rw [fromPremises_cons, settles_rule, ih, List.map_cons, fromPremises_cons]

/-- What comes of composing expressions around another, one after the other. -/
def useUp (ps : List (Expr Unit)) (built : Expr Unit) : Expr Unit :=
  ps.foldl (fun b p => contract (comp p b)) built

/-- Composed around the rule that leads from them to a conclusion, premises give the conclusion. -/
theorem useUp_fromPremises {s : String} {ps : List (Expr Unit)} {q : Expr Unit}
    (h : (fromPremises s ps q).Ground) : useUp ps (fromPremises s ps q) = q := by
  induction ps with
  | nil => rfl
  | cons p ps ih =>
    rw [fromPremises_cons] at h ⊢
    obtain ⟨hp, hps⟩ := ground_pair.mp h
    have hstep : contract (comp p (rule p s (fromPremises s ps q))) = fromPremises s ps q :=
      contract_of_fires hp h (.apply p _ s)
    rw [useUp, List.foldl_cons, hstep]
    exact ih hps

end Expr

namespace GoalState

open RuleProver.Expr (IsRule fromPremises useUp contract settles currying curried twoPremises)

variable {s : String} {Q arg r : Object} {ps : List Object}

/-- The goals for reduced premises come about, and are composed around what is built. -/
theorem exists_premiseGoals [HoleOrder] (hps : ∀ p ∈ ps, p.Reduced) (built : Object) :
    ∃ tree, premiseGoals (some s) [] ps built = .ok tree ∧
      tree.settles = useUp (ps.map settles) built.settles := by
  induction ps generalizing built with
  | nil => exact ⟨built, rfl, rfl⟩
  | cons p ps ih =>
    obtain ⟨hp, hps⟩ := List.forall_mem_cons.mp hps
    have hgoal : Object.goal (some s) (p.fill []) =
        .ok (.node (.mk none (some (some s, p))) .goal [p]) := by
      rw [Expr.fill_nil]
      exact Object.goal_eq_ok_iff.mpr ⟨p, hp.reduce?, rfl⟩
    obtain ⟨tree, htree, hsettles⟩ := ih hps
      (.comp (.node (.mk none (some (some s, p))) .goal [p]) built)
    refine ⟨tree, ?_, ?_⟩
    · rw [premiseGoals, hgoal]
      exact htree
    · rw [hsettles, Expr.settles_comp, Expr.settles_goal]
      rfl

/-- Composed with the conclusion, at most one premise leads to it as before. -/
theorem contract_onePremise [HoleOrder] {P : List (Expr Unit)} {q : Expr Unit}
    (h : (fromPremises s P q).Ground) (hP : P.length ≤ 1) :
    contract (.comp (fromPremises s P q) (.rule q s q)) = fromPremises s P q := by
  obtain ⟨hP', hq⟩ := Expr.ground_fromPremises.mp h
  have hidentity : (Expr.rule q s q).Ground := Expr.ground_pair.mpr ⟨hq, hq⟩
  refine Expr.contract_of_fires h hidentity ?_
  cases P with
  | nil => exact .apply q q s
  | cons p P =>
    obtain rfl := List.length_eq_zero_iff.mp (by simpa using hP)
    exact .chain p q q s

/-- Composed with the conclusion by means of the currifier, two premises lead to it as before. -/
theorem contract_twoPremises [HoleOrder] {p q d : Expr Unit} (h : (twoPremises p q s d).Ground)
    (hd : ¬ d.IsRule s) :
    contract (.comp (.rule d s d) (contract (.comp (twoPremises p q s d) (currying s)))) =
      twoPremises p q s d := by
  obtain ⟨hp, hright⟩ := Expr.ground_pair.mp h
  obtain ⟨hq, hground⟩ := Expr.ground_pair.mp hright
  have hcurrying : contract (.comp (twoPremises p q s d) (currying s)) = curried p q s d := by
    rw [contract, Expr.compose_currying hp hq hground hd, Option.getD_some]
  rw [hcurrying, contract, Expr.compose_curried hp hq hground hd, Option.getD_some]

/-- What goals for the premises are composed around comes to the rule that leads from the premises,
settled, to the goal. -/
theorem exists_built [HoleOrder] (hQ : Q.settles = Q.erase)
    (harg : arg.settles = fromPremises s (ps.map settles) Q.erase)
    (hground : (fromPremises s (ps.map settles) Q.erase).Ground) (hps : ps.length ≤ 2)
    (hconclusion : ps.length = 2 → ¬ Q.erase.IsRule s) :
    ∃ built, backwardTree (Q.identity s) (some s) arg ps [] = premiseGoals (some s) [] ps built ∧
      built.settles = fromPremises s (ps.map settles) Q.erase := by
  have hidentity : (Q.identity s).settles = .rule Q.erase s Q.erase := by
    rw [Expr.identity, Expr.settles_rule, hQ]
  by_cases hlength : ps.length = 2
  · refine ⟨.comp (Q.identity s) (.comp arg (currifier s)), if_pos hlength, ?_⟩
    obtain ⟨p, q, rfl⟩ := List.length_eq_two.mp hlength
    rw [Expr.settles_comp, Expr.settles_comp, hidentity, harg,
      Expr.settles_of_goalFree (goalFree_currifier s), Expr.reduceOnce_currifier]
    exact contract_twoPremises hground (hconclusion hlength)
  · refine ⟨.comp arg (Q.identity s), if_neg hlength, ?_⟩
    rw [Expr.settles_comp, hidentity, harg]
    exact contract_onePremise hground (by simp only [List.length_map]; omega)

/-- **The tree that leads a goal back reduces to the goal**, with all goals in it settled. The goal
`Q` is in reduced form and has no holes and no goals inside. The argument has no holes and reduces,
up to marks, to the rule that leads from at most two premises to the goal. After two premises the
goal is no rule under their symbol. -/
theorem backwardTree_settled_reduces [HoleOrder] (hQ : Q.Plain) (harg : arg.Ground)
    (hr : arg.reduce? = some r) (hform : r.same (fromPremises s ps Q) = true)
    (hps : ps.length ≤ 2) (hconclusion : ps.length = 2 → ¬ Q.erase.IsRule s) :
    ∃ tree u : Object, backwardTree (Q.identity s) (some s) arg ps [] = .ok tree ∧
      tree.settled.reduce? = some u ∧ u.same Q = true := by
  have hreduced := (Expr.reduced_of_reduce? hr).of_same hform
  have hQsettles : Q.settles = Q.erase := by
    rw [Expr.settles_of_goalFree hQ.free, hQ.reduced.reduceOnce_erase_eq]
  have hsettles : arg.settles = fromPremises s (ps.map settles) Q.erase := by
    rw [Expr.settles_eq_of_reflTransGen (Expr.reflTransGen_of_reduceWithin hr) harg,
      Expr.settles_congr hform, Expr.settles_fromPremises, hQsettles]
  have hground : (fromPremises s (ps.map settles) Q.erase).Ground := hsettles ▸ harg.settles
  obtain ⟨built, hbuilt, hbuilt'⟩ := exists_built hQsettles hsettles hground hps hconclusion
  obtain ⟨tree, htree, htree'⟩ := exists_premiseGoals (s := s)
    (fun p hp => Expr.reduced_of_mem_fromPremises hreduced hp) built
  -- one pass over the settled tree uses up the premises, and a second one changes nothing
  have hpass : tree.settled.erase.reduceOnce = Q.erase := by
    rw [Expr.erase_settled]
    exact (htree'.trans (congrArg _ hbuilt')).trans (Expr.useUp_fromPremises hground)
  have hsame : Q.same tree.settled.reduceOnce = true := by
    rw [Expr.same_iff, ← Expr.reduceOnce_erase, hpass]
  obtain ⟨u, hu, herase⟩ := Expr.exists_reduce? (hQ.reduced.of_same hsame)
  exact ⟨tree, u, hbuilt.trans htree, hu, (Expr.same_iff u Q).mpr (herase.trans hpass)⟩

/-- The premises `P => R` and `S`. -/
abbrev examplePremises : List Object := [.rule (.const "P") "=>" (.const "R"), .const "S"]

/-- The argument `X | (X => ((P => R) => (S => A)))`, which has to be reduced before its premises
show. -/
abbrev suppliedRule : Object :=
  .comp (.const "X")
    (.rule (.const "X") "=>" (fromPremises "=>" examplePremises (.const "A")))

/-- Led back by `suppliedRule`, the goal `A` has goals for both premises composed around it, and the
tree reduces to `A`. -/
theorem suppliedRule_settled_reduces :
    suppliedRule.reduce? = some (fromPremises "=>" examplePremises (.const "A")) ∧
      ∃ tree u : Object, backwardTree ((Expr.const "A").identity "=>") (some "=>") suppliedRule
          examplePremises [] = .ok tree ∧
        tree.settled.reduce? = some u ∧ u.same (.const "A" : Object) = true := by
  have hreduce : suppliedRule.reduce? =
      some (fromPremises "=>" examplePremises (.const "A")) := rfl
  have hatom : ¬ (Expr.const "A" : Object).erase.IsRule "=>" := by
    rintro ⟨m, a, b, h⟩
    cases h
  exact ⟨hreduce, backwardTree_settled_reduces ⟨rfl, by decide, rfl⟩ rfl hreduce
    (Expr.same_refl _) (by decide) fun _ => hatom⟩

end GoalState

end RuleProver
