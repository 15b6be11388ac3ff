import RuleProver.Proofs.Currying
import RuleProver.Proofs.GoalSearch
import RuleProver.Proofs.Grants

/-!
# What a proof states

The tree of a backward proof should keep stating the goal that it started from: with every open goal
taken for what is to be built there, it should reduce to the goal. One pass of reduction deals with
the children of a node before the node itself, so what a tree comes to in a pass depends only on
what its parts come to. An object may be put in place of the goal in focus as soon as it comes to
what is to be built there (`Object.Proves.replace`), and each step of a proof need only be looked at
for the object that it puts in place.

This object does come to the goal as long as every rule that is used leads *straight* to its goal.
The reduced rule is then the goal itself, or has one or two premises in front of it, all under the
symbol of the goal; and with two premises the goal is no rule under this symbol, since the currifier
would be chained with it otherwise.

## Main definitions

* `Object.presumed` — a tree with its open goals taken for built
* `Object.comesTo` — what it comes to in one pass of reduction
* `GoalState.Straight` — rules that lead straight to a goal
* `GoalState.Proving` — the tree of a proof comes to a given statement

## Main results

* `Object.Proves.exists_reduce?` — what such a tree reduces to, its open goals taken for built
* `Object.Proves.replace` — what may be put in place of the goal in focus
* `GoalState.Proving.next` — a directive that uses rules straight keeps the statement
-/

namespace RuleProver

namespace Expr

variable {α : Type} [Inhabited α] {t u : Expr α}

theorem Reduced.reduceOnce_erase_eq [HoleOrder] (h : t.Reduced) : t.erase.reduceOnce = t.erase := by
  rw [reduceOnce_erase]
  exact (same_iff _ _).mp h

theorem Ground.reduce? [HoleOrder] (ht : t.Ground) (h : t.reduce? = some u) : u.Ground :=
  ground_of_reflTransGen (reflTransGen_of_reduceWithin h) ht

end Expr

namespace Object

open RuleProver.Expr (GoalFree Reduced Ground contract)

/-! ## Open goals taken for built -/

mutual

/-- The tree with what is to be built in place of every open goal. -/
def presumed : Object → Object
  | .hole m x => .hole m x
  | .node _ .goal (t :: _) => t
  | .node m h cs => .node m h (presumedAll cs)

/-- The trees of a list with what is to be built in place of every open goal. -/
def presumedAll : List Object → List Object
  | [] => []
  | c :: cs => presumed c :: presumedAll cs

end

theorem presumedAll_eq_map (cs : List Object) : presumedAll cs = cs.map presumed := by
  induction cs with
  | nil => rw [presumedAll, List.map_nil]
  | cons c cs ih => rw [presumedAll, ih, List.map_cons]

theorem presumed_node {m : Note} {h : Head} (hh : h ≠ .goal) (cs : List Object) :
    presumed (.node m h cs) = .node m h (cs.map presumed) := by
  rw [presumed, presumedAll_eq_map]
  intro t ts heq
  exact absurd heq hh

theorem presumed_of_goalFree {t : Object} (ht : t.GoalFree) : t.presumed = t := by
  induction t using Expr.induction_on_children with
  | hole m x => rw [presumed]
  | node m h cs ih =>
    rw [Expr.goalFree_node] at ht
    rw [presumed_node ht.1]
    exact congrArg _ ((List.map_congr_left fun c hc => ih c hc (ht.2 c hc)).trans (List.map_id' cs))

variable [HoleOrder]

/-- What a tree comes to in one pass of reduction, with its open goals taken for built. -/
def comesTo (t : Object) : Expr Unit := t.presumed.erase.reduceOnce

theorem comesTo_node {m : Note} {h : Head} (hh : h ≠ .goal) (cs : List Object) :
    comesTo (.node m h cs) = contract (.node () h (cs.map comesTo)) := by
  rw [comesTo, presumed_node hh, Expr.erase_node, Expr.reduceOnce_node_unit, List.map_map,
    List.map_map]
  rfl

theorem comesTo_of_goalFree {t : Object} (ht : t.GoalFree) : t.comesTo = t.erase.reduceOnce := by
  rw [comesTo, presumed_of_goalFree ht]

theorem comesTo_of_goalTerm? {g T : Object} (h : g.goalTerm? = some T) :
    g.comesTo = T.erase.reduceOnce := by
  unfold goalTerm? at h
  split at h
  · cases h
    rw [comesTo, presumed]
  · contradiction

/-! ## Putting an object in place of the goal in focus -/

/-- An object that comes to the same as the goal in its place changes nothing above it. -/
theorem Exchanged.comesTo_eq {u t g t' : Object} {path : List Nat} {gs : List Object}
    (h : Exchanged u t path g gs t') (hu : u.comesTo = g.comesTo) : t'.comesTo = t.comesTo := by
  induction h with
  | here m cs => exact hu
  | child hh _ _ ih => simp only [comesTo_node hh, List.map_append, List.map_cons, ih hu]

/-! ## Trees that come to a statement -/

/-- An object without holes and open goals in reduced form, as goals are stated. -/
structure Plain (t : Object) : Prop where
  ground : t.Ground
  free : t.GoalFree
  reduced : t.Reduced

theorem plain_of_reduce? {t u : Object} (ground : t.Ground) (free : t.GoalFree)
    (h : t.reduce? = some u) : u.Plain :=
  ⟨ground.reduce? h, free.reduce? h, Expr.reduced_of_reduce? h⟩

theorem Plain.sides {m : Note} {s : String} {l r : Object}
    (h : Plain (.node m (.rule s) [l, r])) : l.Plain ∧ r.Plain := by
  obtain ⟨hl, hr⟩ := Expr.ground_pair.mp h.ground
  obtain ⟨-, hlfree, hrfree⟩ := Expr.goalFree_pair.mp h.free
  exact ⟨⟨hl, hlfree, h.reduced.sides.1⟩, ⟨hr, hrfree, h.reduced.sides.2⟩⟩

/-- A tree that comes to `n`, with plain objects to be built. -/
structure Proves (t : Object) (n : Expr Unit) : Prop where
  comesTo : t.comesTo = n
  goals : ∀ g ∈ t.openGoals, ∃ T, g.goalTerm? = some T ∧ T.Plain

namespace Proves

variable {t l r : Object} {n a b : Expr Unit}

theorem of_goalFree (free : t.GoalFree) (h : t.erase.reduceOnce = n) : t.Proves n where
  comesTo := (comesTo_of_goalFree free).trans h
  goals := by simp [openGoals_eq_nil_iff.mpr free]

theorem of_plain (h : t.Plain) : t.Proves t.erase :=
  .of_goalFree h.free h.reduced.reduceOnce_erase_eq

theorem of_reduce? {u : Object} (ground : t.Ground) (free : t.GoalFree) (h : t.reduce? = some u) :
    t.Proves u.erase :=
  .of_goalFree free (ground.erase_of_reduce? h).symm

theorem goals_pair {m : Note} {h : Head} (hh : h ≠ .goal) (hl : l.Proves a) (hr : r.Proves b) :
    ∀ g ∈ openGoals (.node m h [l, r]), ∃ T, g.goalTerm? = some T ∧ T.Plain := by
  intro g hg
  rw [openGoals_node hh, List.flatMap_cons, List.flatMap_cons, List.flatMap_nil, List.append_nil,
    List.mem_append] at hg
  exact hg.elim (hl.goals g) (hr.goals g)

theorem rule {m : Note} {s : String} (hl : l.Proves a) (hr : r.Proves b) :
    Proves (.node m (.rule s) [l, r]) (.rule a s b) where
  comesTo := by
    rw [comesTo_node Head.noConfusion, Expr.contract_of_ne Head.noConfusion, List.map_cons,
      List.map_cons, List.map_nil, hl.comesTo, hr.comesTo]
  goals := goals_pair Head.noConfusion hl hr

theorem comp {m : Note} (hl : l.Proves a) (hr : r.Proves b) (h : a.compose b = some n) :
    Proves (.node m .comp [l, r]) n where
  comesTo := by
    rw [comesTo_node Head.noConfusion, List.map_cons, List.map_cons, List.map_nil, hl.comesTo,
      hr.comesTo, contract, h, Option.getD_some]
  goals := goals_pair Head.noConfusion hl hr

/-- **What a tree reduces to.** With its open goals taken for built, a tree that comes to what `g`
comes to reduces to what `g` reduces to. -/
theorem exists_reduce? {g : Object} (hg : g.Ground) (h : t.Proves g.erase.reduceOnce) :
    ∃ u v : Object, t.presumed.reduce? = some u ∧ g.reduce? = some v ∧ u.same v = true := by
  have hreduced : t.presumed.reduceOnce.Reduced := by
    have hpass : t.presumed.reduceOnce.erase = g.reduceOnce.erase := by
      rw [← Expr.reduceOnce_erase, ← Expr.reduceOnce_erase]
      exact h.comesTo
    rw [Reduced, Expr.same_iff, ← Expr.reduceOnce_erase, hpass]
    exact hg.reduced_reduceOnce.reduceOnce_erase_eq
  obtain ⟨u, hu, herase⟩ := Expr.exists_reduce? hreduced
  obtain ⟨v, hv, herase'⟩ := Expr.exists_reduce? hg.reduced_reduceOnce
  refine ⟨u, v, hu, hv, ?_⟩
  rw [Expr.same_iff, herase, herase']
  exact h.comesTo

/-- **Putting an object in place of the goal in focus** keeps what the tree comes to, when the
object comes to what is to be built there. -/
theorem replace {g : Object} (h : t.Proves n) (hg : t.firstGoal? = some g) :
    ∃ T, g.goalTerm? = some T ∧ T.Plain ∧ ∀ u, u.Proves T.erase →
      ∃ t', replaceGoal? u t = some t' ∧ t'.Proves n := by
  obtain ⟨T, hterm, hplain⟩ := h.goals g (mem_openGoals_of_firstGoal? hg)
  refine ⟨T, hterm, hplain, fun u hu => ?_⟩
  obtain ⟨path, gs, t', ht'⟩ := exists_exchanged u hg
  have hcomesTo : u.comesTo = g.comesTo := by
    rw [hu.comesTo, comesTo_of_goalTerm? hterm, hplain.reduced.reduceOnce_erase_eq]
  refine ⟨t', ht'.replaceGoal?_eq, (ht'.comesTo_eq hcomesTo).trans h.comesTo, fun g' hg' => ?_⟩
  exact (ht'.mem_or_mem hg').elim (hu.goals g') (h.goals g')

end Proves

/-- A new goal. -/
theorem proves_of_goal {symbol : Option String} {t g : Object} (h : Object.goal symbol t = .ok g)
    (ground : t.Ground) (free : t.GoalFree) : g.Proves t.erase.reduceOnce := by
  obtain ⟨u, hu, rfl⟩ := Object.goal_eq_ok_iff.mp h
  have hplain := plain_of_reduce? ground free hu
  refine ⟨?_, fun g' hg' => ?_⟩
  · rw [comesTo_of_goalTerm? rfl, hplain.reduced.reduceOnce_erase_eq]
    exact ground.erase_of_reduce? hu
  · rw [openGoals, List.mem_singleton] at hg'
    subst hg'
    exact ⟨u, rfl, hplain⟩

theorem proves_of_plain_goal {symbol : Option String} {t g : Object}
    (h : Object.goal symbol t = .ok g) (ht : t.Plain) : g.Proves t.erase := by
  rw [← ht.reduced.reduceOnce_erase_eq]
  exact proves_of_goal h ht.ground ht.free

end Object

namespace GoalState

open RuleProver.Expr (GoalFree Ground IsRule twoPremises currying)
open Object (Proves Plain proves_of_goal proves_of_plain_goal)

variable {S S' : GoalState} {g t u T : Object} {n : Expr Unit} {s : String}

/-- There is a tree, and it comes to the statement `n`. -/
def Proving [HoleOrder] (S : GoalState) (n : Expr Unit) : Prop := ∃ t, S.tree = some t ∧ t.Proves n

theorem Proving.update [HoleOrder] (h : S.Proving n) (hg : S.goal? = some g)
    (hS : S.update u = .ok S')
    (hu : ∀ T, g.goalTerm? = some T → T.Plain → u.Proves T.erase) : S'.Proving n := by
  obtain ⟨tree, htree, hproves⟩ := h
  rw [GoalState.goal?, htree, Option.bind_some] at hg
  obtain ⟨T, hterm, hplain, hreplace⟩ := hproves.replace hg
  obtain ⟨tree', htree', hproves'⟩ := hreplace u (hu T hterm hplain)
  rw [GoalState.update, htree] at hS
  cases hS
  refine ⟨tree', ?_, hproves'⟩
  rw [Object.replaceGoal, htree', Option.getD_some]

theorem goalTerm_eq (h : g.goalTerm? = some T) : goalTerm g = T := by
  rw [goalTerm, h, Option.getD_some]

/-! ## Stating goals and assuming premises -/

theorem proving_of_handleGoal [HoleOrder] (h : (S.handleGoal t).1 = some S') (ground : t.Ground)
    (free : t.GoalFree) : S'.Proving t.erase.reduceOnce := by
  obtain ⟨g, hg, rfl⟩ := handleGoal_cases h
  exact ⟨g, rfl, proves_of_goal hg ground free⟩

theorem Proving.handleAssume [HoleOrder] {arg? : Option Object} (hS : S.Proving n)
    (h : (S.handleAssume arg?).1.1 = some S') : S'.Proving n := by
  obtain ⟨g, m, s, l, r, g', hg, hterm, hg', hupdate⟩ := handleAssume_cases h
  refine hS.update hg hupdate fun T hT hplain => ?_
  obtain rfl := Option.some.inj (hterm.symm.trans hT)
  obtain ⟨hl, hr⟩ := hplain.sides
  rw [Expr.erase_node]
  exact .rule (.of_plain hl) (proves_of_plain_goal hg' hr)

theorem Proving.handleAxiom [HoleOrder] {args : List Object} (hS : S.Proving n)
    (h : (S.handleAxiom args).1 = some S') : S'.Proving n := by
  obtain ⟨s, t, -, rfl⟩ := handleAxiom_cases h
  exact hS

/-! ## Leading a goal back straight -/

/-- A reduced rule leads straight to a goal under the symbol `s`: it is the goal, or has one or two
premises in front of the goal under this symbol. After two premises the goal is no rule itself under
this symbol. -/
inductive Straight (s : String) (T : Object) : Object → Prop
  | goal {r : Object} (h : r.same T = true) : Straight s T r
  | one {m : Note} {p r : Object} (h : r.same T = true) : Straight s T (.node m (.rule s) [p, r])
  | two {m m' : Note} {p q r : Object} (h : r.same T = true) (conclusion : ¬ T.erase.IsRule s) :
      Straight s T (.node m (.rule s) [p, .node m' (.rule s) [q, r]])

/-- Whether a rule leads straight to the goal in focus. -/
def LeadsStraight [HoleOrder] (S : GoalState) (rule : Object) : Prop :=
  ∀ g, S.goal? = some g →
    ∃ r, rule.reduce? = some r ∧ Straight (symbolText g.goalSymbol) (goalTerm g) r

theorem peel_of_same {r : Object} (hT : T.Ground) (hr : r.Ground) (h : r.same T = true) :
    peel T r = some ([], []) := by
  have hunifier : T.unifier? r = some [] := by
    rw [Expr.unifier?_of_ground hT hr, if_pos ((Expr.same_iff r T).mp h).symm]
  unfold peel
  split
  · rw [hunifier]
  · rw [hunifier, Option.map_some]

theorem peel_rule {m : Note} {p r : Object} (hT : T.Ground)
    (hr : (Expr.node m (.rule s) [p, r]).Ground)
    (h : T.erase ≠ .rule p.erase s r.erase) :
    peel T (.node m (.rule s) [p, r]) =
      (peel T r).map fun (premises, σ) => (p :: premises, σ) := by
  have hunifier : T.unifier? (.node m (.rule s) [p, r]) = none := by
    rw [Expr.unifier?_of_ground hT hr, if_neg]
    simpa using h
  rw [peel, hunifier]

variable [HoleOrder]

/-- The premises of a rule that leads to the goal are those that are peeled off. -/
theorem premisesForGoal_of_peel {symbol : Option String} {rule r : Object} {ps : List Object}
    {σ : Assignment Note} (hr : rule.reduce? = some r) (hpeel : peel T r = some (ps, σ))
    (hps : ps.length ≤ 2) : premisesForGoal symbol T rule =
      .ok (.ok (T.identity (symbolText symbol), ps, σ)) := by
  have hok : premisesFor (T.identity (symbolText symbol)) T rule = .ok (.ok (ps, σ)) :=
    premisesFor_eq_ok_iff.mpr ⟨r, hr, hpeel, hps⟩
  rw [premisesForGoal, hok]
  rfl

section Backward

variable {symbol : Option String} {rule tree p q : Object}

theorem proves_identity (hT : T.Plain) : Proves (T.identity s) (.rule T.erase s T.erase) :=
  .rule (.of_plain hT) (.of_plain hT)

/-- An object that comes to `a`, composed with one that comes to a rule from `a` to `b`. -/
theorem proves_apply {m : Note} {l r : Object} {a b : Expr Unit} (hl : l.Proves a)
    (hr : r.Proves (.rule a s b)) (ha : a.Ground) (hb : b.Ground) :
    Proves (.node m .comp [l, r]) b :=
  .comp hl hr ((Expr.compose_eq_some_iff ha (Expr.ground_pair.mpr ⟨ha, hb⟩)).mpr (.apply a b s))

/-- A rule that reduces to the goal needs no premises. -/
theorem proves_of_noPremise (hT : T.Plain) (hrule : rule.Proves T.erase)
    (h : backwardTree (T.identity (symbolText symbol)) symbol rule [] [] = .ok tree) :
    tree.Proves T.erase := by
  cases h
  have hground := Expr.ground_erase.mpr hT.ground
  exact proves_apply hrule (proves_identity hT) hground hground

/-- A goal for the premise is composed with a rule that leads from the premise to the goal. -/
theorem proves_of_onePremise (hT : T.Plain) (hp : p.Plain)
    (hrule : rule.Proves (.rule p.erase (symbolText symbol) T.erase))
    (h : backwardTree (T.identity (symbolText symbol)) symbol rule [p] [] = .ok tree) :
    tree.Proves T.erase := by
  rw [backwardTree, if_neg (by simp), premiseGoals, bind_eq_ok_iff] at h
  obtain ⟨gp, hgp, h⟩ := h
  cases h
  rw [Expr.fill_nil] at hgp
  have hground := Expr.ground_erase.mpr hT.ground
  have hground' := Expr.ground_erase.mpr hp.ground
  -- chained with the rule from its conclusion to itself, the rule stays what it is
  have hchain := (Expr.compose_eq_some_iff (Expr.ground_pair.mpr ⟨hground', hground⟩)
    (Expr.ground_pair.mpr ⟨hground, hground⟩)).mpr
      (.chain p.erase T.erase T.erase (symbolText symbol))
  have hback := Proves.comp (m := default) hrule (proves_identity hT) hchain
  exact proves_apply (proves_of_plain_goal hgp hp) hback hground' hground

/-- Goals for both premises are composed with what the currifier makes of the rule. -/
theorem proves_of_twoPremises (hT : T.Plain) (hp : p.Plain) (hq : q.Plain)
    (hrule : rule.Proves (twoPremises p.erase q.erase (symbolText symbol) T.erase))
    (hconclusion : ¬ T.erase.IsRule (symbolText symbol))
    (h : backwardTree (T.identity (symbolText symbol)) symbol rule [p, q] [] = .ok tree) :
    tree.Proves T.erase := by
  rw [backwardTree, if_pos (by simp), premiseGoals, bind_eq_ok_iff] at h
  obtain ⟨gp, hgp, h⟩ := h
  rw [premiseGoals, bind_eq_ok_iff] at h
  obtain ⟨gq, hgq, h⟩ := h
  cases h
  rw [Expr.fill_nil] at hgp hgq
  have hground := Expr.ground_erase.mpr hT.ground
  have hground' := Expr.ground_erase.mpr hp.ground
  have hground'' := Expr.ground_erase.mpr hq.ground
  have hcurrifier : (currifier (symbolText symbol)).Proves (currying (symbolText symbol)) :=
    .of_goalFree (goalFree_currifier _) (Expr.reduceOnce_currifier _)
  have hcurried := Proves.comp (m := default) hrule hcurrifier
    (Expr.compose_currying hground' hground'' hground hconclusion)
  have hback := Proves.comp (m := default) (proves_identity hT) hcurried
    (Expr.compose_curried hground' hground'' hground hconclusion)
  have hfirst := proves_apply (m := default) (proves_of_plain_goal hgp hp) hback hground'
    (Expr.ground_pair.mpr ⟨hground'', hground⟩)
  exact proves_apply (proves_of_plain_goal hgq hq) hfirst hground'' hground

/-- **A rule that leads straight to a goal** is put in place with goals for its premises, and the
whole comes to the goal. -/
theorem proves_of_straight {r term : Object} {ps : List Object} {σ : Assignment Note}
    (hT : T.Plain) (hrule : rule.Ground) (hfree : rule.GoalFree) (hr : rule.reduce? = some r)
    (hstraight : Straight (symbolText symbol) T r)
    (hpremises : premisesForGoal symbol T rule = .ok (.ok (term, ps, σ)))
    (h : backwardTree term symbol rule ps σ = .ok tree) : tree.Proves T.erase := by
  have hplain : r.Plain := Object.plain_of_reduce? hrule hfree hr
  have hproves : rule.Proves r.erase := .of_reduce? hrule hfree hr
  cases hstraight with
  | goal hsame =>
    have hpeel := peel_of_same hT.ground hplain.ground hsame
    rw [premisesForGoal_of_peel hr hpeel (by simp)] at hpremises
    cases hpremises
    rw [(Expr.same_iff r T).mp hsame] at hproves
    exact proves_of_noPremise hT hproves h
  | @one m p r' hsame =>
    have herase : r'.erase = T.erase := (Expr.same_iff r' T).mp hsame
    obtain ⟨hp, hr'⟩ := hplain.sides
    have hne : T.erase ≠ .rule p.erase (symbolText symbol) r'.erase := by
      rw [herase]
      exact Expr.ne_rule_self _ _ _
    have hpeel := peel_rule hT.ground hplain.ground hne
    rw [peel_of_same hT.ground hr'.ground hsame] at hpeel
    rw [premisesForGoal_of_peel hr hpeel (by simp)] at hpremises
    cases hpremises
    rw [Expr.erase_node, List.map_cons, List.map_cons, List.map_nil, herase] at hproves
    exact proves_of_onePremise hT hp hproves h
  | @two m m' p q r' hsame hconclusion =>
    have herase : r'.erase = T.erase := (Expr.same_iff r' T).mp hsame
    obtain ⟨hp, hqr⟩ := hplain.sides
    obtain ⟨hq, hr'⟩ := hqr.sides
    -- the goal is no rule under the symbol, so nothing but its last part is the same
    have hne : ∀ a b : Expr Unit, T.erase ≠ .rule a (symbolText symbol) b :=
      fun a b heq => hconclusion ⟨_, a, b, heq⟩
    have hpeel := peel_rule hT.ground hplain.ground (hne _ _)
    rw [peel_rule hT.ground hqr.ground (hne _ _), peel_of_same hT.ground hr'.ground hsame] at hpeel
    rw [premisesForGoal_of_peel hr hpeel (by simp)] at hpremises
    cases hpremises
    simp only [Expr.erase_node, List.map_cons, List.map_nil, herase] at hproves
    exact proves_of_twoPremises hT hp hq hproves hconclusion h

end Backward

theorem Proving.handleBy {rule : Object} {force? : Option Object} (hS : S.Proving n)
    (hrule : rule.Ground) (hfree : rule.GoalFree) (hforce : isForce force? = false)
    (hstraight : S.LeadsStraight rule) (h : (S.handleBy rule force?).1 = some S') :
    S'.Proving n := by
  obtain ⟨g, term, ps, σ, used, tree, hg, hpremises, hused, htree, hupdate⟩ := handleBy_cases h
  obtain ⟨rfl, -⟩ : used = rule ∧ _ := hused.resolve_right fun hforced => by
    rw [hforce] at hforced
    exact Bool.false_ne_true hforced.1
  obtain ⟨r, hr, hstraight⟩ := hstraight g hg
  refine hS.update hg hupdate fun T hterm hT => ?_
  rw [goalTerm_eq hterm] at hpremises hstraight
  exact proves_of_straight hT hrule hfree hr hstraight hpremises htree

/-! ## Closing a goal -/

theorem Proving.handleDone {c? : Option Object} (hS : S.Proving n)
    (hc : ∀ c, c? = some c → c.Ground ∧ c.GoalFree) (h : (S.handleDone c?).1 = some S') :
    S'.Proving n := by
  obtain ⟨g, hg, hcases⟩ := handleDone_cases h
  rcases hcases with ⟨c, rfl, hclose⟩ | ⟨rfl, -, hupdate⟩
  · obtain ⟨hground, hfree⟩ := hc c rfl
    obtain ⟨v, Θ, r, -, -, hr, hrest⟩ := closeWith_cases hclose
    have hplain : Plain r := Object.plain_of_reduce? hground hfree hr
    have hproves : Proves c r.erase := .of_reduce? hground hfree hr
    rcases hrest with ⟨hsame, hupdate⟩ | ⟨-, m, s, l, r', rfl, -, ⟨q, hq, hsame⟩, hupdate⟩
    · refine hS.update hg hupdate fun T hterm hT => ?_
      rwa [(Expr.same_iff _ _).mp hsame, goalTerm_eq hterm] at hproves
    · obtain ⟨hl, hr'⟩ := hplain.sides
      obtain rfl : q = r' := Option.some.inj (hq.symm.trans hr'.reduced.reduce?)
      refine hS.update hg hupdate fun T hterm hT => ?_
      rw [goalTerm_eq hterm, Expr.same_iff] at hsame
      rw [Expr.erase_node, List.map_cons, List.map_cons, List.map_nil, hsame] at hproves
      exact proves_apply (.of_plain hl) hproves (Expr.ground_erase.mpr hl.ground)
        (Expr.ground_erase.mpr hT.ground)
  · refine hS.update hg hupdate fun T hterm hT => ?_
    rw [goalTerm_eq hterm]
    exact .of_plain hT

/-! ## Any step -/

/-- A directive that states no new goal, closes goals by an object without holes, and leads them
back, without force, by a rule without holes that leads straight to the goal in focus. -/
structure Direct (S : GoalState) (v : Verb) (args : List Object) : Prop where
  verb : v ≠ .goal
  ground : v = .leadBack ∨ v = .done → ∀ a ∈ args, a.Ground
  unforced : ∀ rule force, v = .leadBack → args = [rule, force] → isForce (some force) = false
  straight : ∀ rule rest, v = .leadBack → args = rule :: rest → (S.next? v args).isSome →
    S.LeadsStraight rule

/-- **A direct step keeps the statement of a proof.** -/
theorem Proving.next {v : Verb} {args : List Object} (hS : S.Proving n) (hdirect : S.Direct v args)
    (hfree : ∀ a ∈ args, a.GoalFree) (h : S.next? v args = some S') : S'.Proving n := by
  have hstraight : ∀ rule rest, v = .leadBack → args = rule :: rest → S.LeadsStraight rule :=
    fun rule rest hv hargs => hdirect.straight rule rest hv hargs (by rw [h]; rfl)
  unfold next? at h
  split at h
  · exact absurd rfl hdirect.verb
  · exact hS.handleAssume h
  · exact hS.handleAssume h
  · have hground := hdirect.ground (.inl rfl)
    exact hS.handleBy (hground _ List.mem_cons_self) (hfree _ List.mem_cons_self) rfl
      (hstraight _ _ rfl rfl) h
  · have hground := hdirect.ground (.inl rfl)
    exact hS.handleBy (hground _ List.mem_cons_self) (hfree _ List.mem_cons_self)
      (hdirect.unforced _ _ rfl rfl) (hstraight _ _ rfl rfl) h
  · exact hS.handleDone (by simp) h
  · have hground := hdirect.ground (.inr rfl)
    refine hS.handleDone (fun c hc => ?_) h
    cases hc
    exact ⟨hground _ List.mem_cons_self, hfree _ List.mem_cons_self⟩
  · exact hS.handleAxiom h
  · contradiction

end GoalState

end RuleProver
