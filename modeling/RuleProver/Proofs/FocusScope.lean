import RuleProver.Proofs.GoalNames
import RuleProver.Proofs.GoalSearch
import RuleProver.Proofs.LiftedRule

/-!
# The scope of the goal in focus

The goal in focus is found by a search through the whole tree, and what may be used for it by a walk
that enters the right sides of rules and both sides of compositions only. The two meet because of
where goals can stand: in an outline the left sides of rules have no goals, and neither has anything
below a term. So the walk ends at the goal in focus, it has passed all the rules above it, and what
it has collected is what is in scope there: the left sides of these rules, from the outside in, and
then the axioms.

That the tree is an outline has to hold of every state that can be returned to, since undoing and
rolling back bring back the goals of one moment with the aliases, the chain and the functorial rules
of another.

## Main definitions

* `Object.Focus` — a path to the first goal of a tree
* `Object.Descends` — a path that passes rules on the right side and compositions only
* `GoalState.inScope` — what is in scope at the end of a path
* `Session.Outlines` — every tree that is kept is an outline

## Main results

* `Object.Exchanged.focus` — the search for the first goal ends at the first goal
* `Object.Outline.exists_descent` — how the goal in focus of an outline is reached
* `GoalState.context_get?` — what may be used at the end of a descent
* `Session.Outlines.process` — a directive keeps outlines only
* `Prover.Reachable.keeps` — what directives keep holds of every session that is reached
* `Prover.context_at_focus` — what may be used for the goal in focus, in every reachable state
-/

namespace RuleProver

/-! ## Paths -/

namespace Expr

variable {α : Type}

/-- The parts on a path, from the whole expression to the end of the path. -/
def along (t : Expr α) : List Nat → List (Expr α)
  | [] => [t]
  | i :: path => t :: t.children[i]?.elim [] fun c => c.along path

/-- A part of an expression without goals is no goal. -/
theorem GoalFree.at? {t : Expr α} (ht : t.GoalFree) (path : List Nat) (m : α)
    (cs : List (Expr α)) : t.at? path ≠ some (.node m .goal cs) := by
  induction path generalizing t with
  | nil =>
    rintro ⟨⟩
    exact (goalFree_node.mp ht).1 rfl
  | cons i path ih =>
    rw [Expr.at?]
    cases hc : t.children[i]? with
    | none => simp
    | some c =>
      cases t with
      | hole m' x => cases hc
      | node m' h ds => exact ih ((goalFree_node.mp ht).2 c (List.mem_of_getElem? hc))

end Expr

namespace Object

variable {Γ : Context Note} {s : Option String} {t g : Object} {path : List Nat}
  {es : List (Option String × Object)}

/-- A path leads to the first goal of a tree. In the order of paths, in which a part comes before
what is inside it and before what is to its right, there is no goal before it. -/
structure Focus (t : Object) (path : List Nat) (g : Object) : Prop where
  at_path : t.at? path = some g
  isGoal : ∃ m cs, g = .node m .goal cs
  first : ∀ q < path, ∀ m cs, t.at? q ≠ some (.node m .goal cs)

/-- The goal that a search finds is the first one. -/
theorem Exchanged.focus {u t' : Object} {gs : List Object} (h : Exchanged u t path g gs t') :
    t.Focus path g := by
  induction h with
  | here m cs => exact ⟨rfl, ⟨m, cs, rfl⟩, fun q hq => absurd hq (List.not_lt_nil q)⟩
  | @child m hd before after c c' g path gs hh free _ ih =>
    refine ⟨?_, ih.isGoal, fun q hq m' ds => ?_⟩
    · rw [Expr.at?_node]
      exact ih.at_path
    cases q with
    | nil =>
      intro hroot
      rw [Expr.at?, Option.some.injEq, Expr.node.injEq] at hroot
      exact hh hroot.2.1
    | cons i q =>
      rcases List.cons_lt_cons_iff.mp hq with hi | ⟨rfl, hlt⟩
      · -- the path turns off to the left, into a child without goals
        have hchild : (before ++ c :: after)[i]? = some (before.get ⟨i, hi⟩) := by
          rw [List.getElem?_append_left hi, List.getElem?_eq_getElem hi, List.get_eq_getElem]
        rw [Expr.at?_node_cons, hchild, Option.bind_some]
        exact (free _ (List.get_mem before ⟨i, hi⟩)).at? q m' ds
      · rw [Expr.at?_node]
        exact ih.first q hlt m' ds

/-- A path passes rules, to their right side, and compositions, and nothing else. -/
def Descends (t : Object) (path : List Nat) : Prop :=
  ∀ before i after, path = before ++ i :: after →
    ∃ m h l r, t.at? before = some (.node m h [l, r]) ∧
      ((∃ s, h = .rule s) ∧ i = 1 ∨ h = .comp ∧ (i = 0 ∨ i = 1))

/-- The left side of a rule under a symbol. -/
def leftUnder (s : Option String) : Object → Option Object
  | .node _ (.rule s') [l, _] => if some s' = s then some l else none
  | _ => none

/-- How a path descends to the goal in focus, and the left sides that it collects. -/
inductive Descent : Object → List Nat → Object → List (Option String × Object) → Prop
  | goal (m : Note) (cs : List Object) : Descent (.node m .goal cs) [] (.node m .goal cs) []
  | rule {m : Note} {s : String} {l r g : Object} {path : List Nat}
      {es : List (Option String × Object)} (hl : l.GoalFree) (h : Descent r path g es) :
      Descent (.node m (.rule s) [l, r]) (1 :: path) g ((some s, l) :: es)
  | left {m : Note} {l r g : Object} {path : List Nat} {es : List (Option String × Object)}
      (h : Descent l path g es) : Descent (.node m .comp [l, r]) (0 :: path) g es
  | right {m : Note} {l r g : Object} {path : List Nat} {es : List (Option String × Object)}
      (hl : l.GoalFree) (h : Descent r path g es) :
      Descent (.node m .comp [l, r]) (1 :: path) g es

/-- **The goal in focus of an outline** is reached by a descent. -/
theorem Outline.exists_descent [HoleOrder] (h : Outline Γ s t) (hg : t.firstGoal? = some g) :
    ∃ path es, Descent t path g es := by
  induction h with
  | goal =>
    rw [firstGoal?] at hg
    cases hg
    exact ⟨[], [], .goal _ _⟩
  | built free =>
    rw [firstGoal?_eq_none_iff.mpr free] at hg
    cases hg
  | @comp _ _ _ l r _ _ ihl ihr =>
    rw [firstGoal?_pair Head.noConfusion] at hg
    -- the first goal is on the left if there is one
    cases hl : firstGoal? l with
    | some g' =>
      rw [hl, Option.some_or] at hg
      obtain ⟨path, es, hdescent⟩ := ihl (hl.trans hg)
      exact ⟨0 :: path, es, .left hdescent⟩
    | none =>
      rw [hl, Option.none_or] at hg
      obtain ⟨path, es, hdescent⟩ := ihr hg
      exact ⟨1 :: path, es, .right (firstGoal?_eq_none_iff.mp hl) hdescent⟩
  | rule free _ _ ih =>
    rw [firstGoal?_pair Head.noConfusion, firstGoal?_eq_none_iff.mpr free, Option.none_or] at hg
    obtain ⟨path, es, hdescent⟩ := ih hg
    exact ⟨1 :: path, _, .rule free hdescent⟩

namespace Descent

/-- A descent is the way that a search for the first goal takes. -/
theorem exists_exchanged (h : Descent t path g es) (u : Object) :
    ∃ gs t', Exchanged u t path g gs t' := by
  induction h with
  | goal m cs => exact ⟨[], u, .here m cs⟩
  | rule hl _ ih =>
    obtain ⟨gs, r', hsearch⟩ := ih
    exact ⟨_, _, .child Head.noConfusion (List.forall_mem_singleton.mpr hl) hsearch⟩
  | left _ ih =>
    obtain ⟨gs, l', hsearch⟩ := ih
    exact ⟨_, _, .child Head.noConfusion (List.forall_mem_nil _) hsearch⟩
  | right hl _ ih =>
    obtain ⟨gs, r', hsearch⟩ := ih
    exact ⟨_, _, .child Head.noConfusion (List.forall_mem_singleton.mpr hl) hsearch⟩

theorem focus (h : Descent t path g es) : t.Focus path g := by
  obtain ⟨gs, t', hsearch⟩ := h.exists_exchanged g
  exact hsearch.focus

/-- One more step at the beginning of a path. -/
theorem descends_cons {m : Note} {h : Head} {l r c : Object} {i : Nat}
    (hstep : (∃ s, h = .rule s) ∧ i = 1 ∨ h = .comp ∧ (i = 0 ∨ i = 1))
    (hc : [l, r][i]? = some c) (hpath : c.Descends path) :
    Descends (.node m h [l, r]) (i :: path) := by
  intro before j after heq
  cases before with
  | nil =>
    obtain ⟨rfl, -⟩ := List.cons.inj heq
    exact ⟨m, h, l, r, rfl, hstep⟩
  | cons k before =>
    obtain ⟨rfl, hrest⟩ := List.cons.inj heq
    obtain ⟨m', h', l', r', hat, hstep'⟩ := hpath before j after hrest
    refine ⟨m', h', l', r', ?_, hstep'⟩
    rw [Expr.at?, Expr.children, hc]
    exact hat

theorem descends (h : Descent t path g es) : t.Descends path := by
  induction h with
  | goal m cs =>
    intro before i after heq
    exact absurd heq.symm (by simp)
  | rule hl _ ih => exact descends_cons (.inl ⟨⟨_, rfl⟩, rfl⟩) rfl ih
  | left _ ih => exact descends_cons (.inr ⟨rfl, .inl rfl⟩) rfl ih
  | right hl _ ih => exact descends_cons (.inr ⟨rfl, .inr rfl⟩) rfl ih

/-- The walk for what may be used takes the same path. -/
theorem assumptions?_eq (h : Descent t path g es) : t.assumptions? = some es := by
  induction h with
  | goal => rfl
  | rule _ _ ih => rw [assumptions?, ih, Option.map_some]
  | left _ ih => rw [assumptions?, ih, Option.some_or]
  | right hl _ ih => rw [assumptions?, assumptions?_of_goalFree hl, Option.none_or, ih]

/-- What is collected on the path are the left sides of the rules on it. -/
theorem filterMap_along (h : Descent t path g es) (s : Option String) :
    (t.along path).filterMap (leftUnder s) = Context.recorded es s := by
  induction h with
  | goal => rfl
  | @rule m s' l r g path es hl _ ih =>
    rw [Context.recorded_cons, ← ih]
    by_cases hs : some s' = s <;> simp [Expr.along, Expr.children, leftUnder, hs]
  | left _ ih => exact ih
  | right _ _ ih => exact ih

end Descent

end Object

namespace GoalState

variable {S : GoalState} {g : Object}

/-- What is in scope for a symbol at the end of a path in a tree: the left sides of the rules under
the symbol on the path, from the outside in, and then the axioms for it, in the order in which they
were added. -/
def inScope (S : GoalState) (t : Object) (path : List Nat) (s : Option String) : List Object :=
  (t.along path).filterMap (Object.leftUnder s) ++ Context.recorded S.axioms s

theorem context_get? {t : Object} {path : List Nat} {es : List (Option String × Object)}
    (ht : S.tree = some t) (h : Object.Descent t path g es) (s : Option String) :
    S.context.get? s =
      if S.inScope t path s = [] then none else some (S.inScope t path s) := by
  have hcontext : S.context = Context.addAll [] (es ++ S.axioms) :=
    (context_eq ht h.assumptions?_eq).trans List.foldl_append.symm
  have hrecorded : Context.recorded (es ++ S.axioms) s = S.inScope t path s := by
    rw [inScope, h.filterMap_along, Context.recorded, List.filter_append, List.map_append]
    rfl
  rw [hcontext, Context.get?_addAll, hrecorded]
  rfl

end GoalState

/-! ## Sessions -/

namespace Session

open GoalState (Grant)

variable {S S' : Session} {c : Component} {d : Directive} {G : List Grant} [HoleOrder]

/-- Every tree that a session keeps is an outline, and nothing else that it keeps has open goals,
also in states that can be returned to. -/
structure Outlines (S : Session) : Prop where
  aliases : ∀ A ∈ S.aliases.stack, A.GoalFree
  chain : ∀ c? ∈ S.chain.stack, ∀ c, c? = some c → c.unreduced.GoalFree
  functorials : ∀ F ∈ S.functorials.stack, F.GoalFree
  goals : ∀ T ∈ S.goals.stack, ∃ G, T.Outlined G

theorem outlines_initial : initial.Outlines where
  aliases := List.forall_mem_singleton.mpr sound_initial.clean.aliases
  chain := List.forall_mem_singleton.mpr sound_initial.clean.chain
  functorials := List.forall_mem_singleton.mpr sound_initial.clean.functorials
  goals := List.forall_mem_singleton.mpr ⟨[], sound_initial.outlined⟩

/-- What is kept may be returned to: the current states make a sound session together. -/
theorem Outlines.sound (hS : S.Outlines) (hintact : S.Intact) : ∃ G, S.Sound G := by
  obtain ⟨G, hG⟩ := hS.goals _ hintact.goals.current_mem
  exact ⟨G, {
    clean := {
      order := hintact.order
      chainsPremises := hintact.chainsPremises
      aliases := hS.aliases _ hintact.aliases.current_mem
      chain := hS.chain _ hintact.chain.current_mem
      functorials := hS.functorials _ hintact.functorials.current_mem }
    outlined := hG }⟩

/-- A component that moves on keeps what it had and what it moves on to. -/
theorem Outlines.pushed (hS : S.Outlines) (h : Pushed S c S') (hS' : S'.Sound G) :
    S'.Outlines := by
  -- whichever component it is, the state it has moved on to is now the current one
  cases h with
  | aliases A =>
    exact { hS with aliases := List.forall_mem_cons.mpr ⟨hS'.clean.aliases, hS.aliases⟩ }
  | chain c? => exact { hS with chain := List.forall_mem_cons.mpr ⟨hS'.clean.chain, hS.chain⟩ }
  | functorials F =>
    exact { hS with
      functorials := List.forall_mem_cons.mpr ⟨hS'.clean.functorials, hS.functorials⟩ }
  | goals T =>
    exact { hS with goals := List.forall_mem_cons.mpr ⟨⟨G, hS'.outlined⟩, hS.goals⟩ }

/-- Taking states away leaves outlines. -/
theorem Outlines.of_suffix (hS : S.Outlines)
    (h : Compares (fun h₀ h => h.stack <:+ h₀.stack) S S') : S'.Outlines where
  aliases A hA := hS.aliases A (h.aliases.subset hA)
  chain c? hc? := hS.chain c? (h.chain.subset hc?)
  functorials F hF := hS.functorials F (h.functorials.subset hF)
  goals T hT := hS.goals T (h.goals.subset hT)

theorem Outlines.perform (hS : S.Outlines) (hsound : S.Sound G) (v : Verb) {args : List Object}
    (hargs : ∀ a ∈ args, a.GoalFree) : (S.perform v args).1.Outlines := by
  rcases (performed_perform hsound.clean.chainsPremises v args).eq_or_pushed with
    heq | ⟨c, hpushed⟩
  · rw [heq]
    exact hS
  · exact hS.pushed hpushed (hsound.perform v hargs)

/-- **A directive keeps outlines only.** -/
theorem Outlines.process (hS : S.Outlines) (hintact : S.Intact)
    (hd : ∀ a ∈ d.args, a.GoalFree) : (S.process d).1.Outlines := by
  obtain ⟨G, hsound⟩ := hS.sound hintact
  have hprepared := hsound.clean.prepare d.name (p := ⟨d.args, false⟩) hd hsound.clean.own_of_mem
  have hsound' : (S.named d).Sound G :=
    ⟨fst_prepare hintact.order d ▸ hprepared.clean, hsound.outlined⟩
  have hnamed : (S.named d).Outlines := by
    rcases S.named_eq_or_pushed d with heq | ⟨-, hpushed⟩
    · rw [heq]
      exact hS
    · exact hS.pushed hpushed hsound'
  rcases process_cases hintact.order d with heq | ⟨v, p, handled, hp, heq⟩
  · rw [heq]
    exact hnamed
  · rw [heq]
    exact { hnamed.perform hsound' v (hprepared.args p hp) with }

end Session

/-! ## Runs -/

namespace Prover

variable {P : Prover}

/-- **What every session keeps.** A property of the new session holds of the session of every prover
that is reached, if every directive keeps it, and taking states away does too. -/
theorem Reachable.keeps [HoleOrder] {I : Session → Prop} (hinitial : I .initial)
    (hprocess : ∀ {S : Session} {d : Directive}, S.Intact → (∀ a ∈ d.args, a.GoalFree) → I S →
      I (S.process d).1)
    (hsuffix : ∀ {S S' : Session},
      Session.Compares (fun h₀ h => h.stack <:+ h₀.stack) S S' → I S → I S')
    (hP : P.Reachable) : I P.session := by
  obtain ⟨base, es, hrun⟩ := reachable_iff_runs.mp hP
  have hes : ∀ d ending, .direct d ending ∈ es → ∀ a ∈ d.args, a.GoalFree := by
    intro d ending hd
    obtain ⟨line, hparse⟩ := hrun.exists_parse hd
    exact Directive.goalFree_of_parse hparse
  rw [← hrun.replay_eq]
  clear hrun
  induction es using List.reverseRecOn with
  | nil => exact hinitial
  | append_singleton es e ih =>
    have hQ := intact_replay (P := Prover.initial base) Session.intact_initial es
    have hbefore := ih fun d ending hd => hes d ending (List.mem_append_left _ hd)
    rw [replay_append]
    by_cases he : ∃ d ending, e = .direct d ending
    · obtain ⟨d, ending, rfl⟩ := he
      exact hprocess hQ (hes d ending (List.mem_append_right _ List.mem_cons_self)) hbefore
    · exact hsuffix (suffix_onEvent hQ fun d ending h => he ⟨d, ending, h⟩) hbefore

theorem Reachable.outlines [HoleOrder] (hP : P.Reachable) : P.session.Outlines :=
  hP.keeps Session.outlines_initial (fun hintact hd hS => hS.process hintact hd)
    fun hsuffix hS => hS.of_suffix hsuffix

/-- **What may be used for the goal in focus is what is in its scope.** In every state that a prover
reaches with an open goal, the path to the first one passes rules on the right side and compositions
only. For every symbol, the left sides of the rules under it on this path are listed, from the
outside in, and then the axioms for it; and nothing is listed for a symbol that has neither. -/
theorem context_at_focus [HoleOrder] {g : Object} (hP : P.Reachable)
    (hg : P.session.goals.current.goal? = some g) :
    ∃ t path, P.session.goals.current.tree = some t ∧ t.Focus path g ∧ t.Descends path ∧
      ∀ s, P.session.goals.current.context.get? s =
        if P.session.goals.current.inScope t path s = [] then none
        else some (P.session.goals.current.inScope t path s) := by
  obtain ⟨G, houtlined⟩ := hP.outlines.goals _ hP.intact.goals.current_mem
  obtain ⟨t, ht, hfirst⟩ := Option.bind_eq_some_iff.mp hg
  obtain ⟨path, es, hdescent⟩ := (houtlined t ht).exists_descent hfirst
  exact ⟨t, path, ht, hdescent.focus, hdescent.descends, GoalState.context_get? ht hdescent⟩

/-! ### A goal below two premises -/

/-- The journal of a proof of `A => (B => C)` from the axiom `D => C`, up to the goal `D`. -/
def nestedJournal : List Event :=
  [.direct ⟨"Axiom", [.rule (.const "D") "=>" (.const "C")]⟩ .succeeded,
    .direct ⟨"Goal", [.rule (.const "A") "=>" (.rule (.const "B") "=>" (.const "C"))]⟩ .succeeded,
    .direct ⟨"Assume", []⟩ .succeeded, .direct ⟨"Assume", []⟩ .succeeded,
    .direct ⟨"By", [.rule (.const "D") "=>" (.const "C")]⟩ .succeeded]

theorem parse_axiom_DC : Directive.parse "Axiom D => C" =
    .ok (some ⟨"Axiom", [.rule (.const "D") "=>" (.const "C")]⟩) :=
  Directive.parse_of_readAll
    [⟨.symbol, "Axiom", 0⟩, ⟨.symbol, "D", 6⟩, ⟨.symbol, "=>", 8⟩, ⟨.symbol, "C", 11⟩]
    (by cbv) (by cbv) (by cbv)

theorem parse_goal_ABC : Directive.parse "Goal A => (B => C)" =
    .ok (some ⟨"Goal", [.rule (.const "A") "=>" (.rule (.const "B") "=>" (.const "C"))]⟩) :=
  Directive.parse_of_readAll
    [⟨.symbol, "Goal", 0⟩, ⟨.symbol, "A", 5⟩, ⟨.symbol, "=>", 7⟩, ⟨.openParen, "(", 10⟩,
      ⟨.symbol, "B", 11⟩, ⟨.symbol, "=>", 13⟩, ⟨.symbol, "C", 16⟩, ⟨.closeParen, ")", 17⟩]
    (by cbv) (by cbv) (by cbv)

theorem parse_assume : Directive.parse "Assume" = .ok (some ⟨"Assume", []⟩) :=
  Directive.parse_of_readAll [⟨.symbol, "Assume", 0⟩] (by cbv) (by cbv) (by cbv)

theorem parse_by_DC : Directive.parse "By D => C" =
    .ok (some ⟨"By", [.rule (.const "D") "=>" (.const "C")]⟩) :=
  Directive.parse_of_readAll
    [⟨.symbol, "By", 0⟩, ⟨.symbol, "D", 3⟩, ⟨.symbol, "=>", 5⟩, ⟨.symbol, "C", 8⟩]
    (by cbv) (by cbv) (by cbv)

theorem runs_nested : Runs (initial "") nestedJournal ((initial "").replay nestedJournal) := by
  have hstated : Runs (initial "") _ _ :=
    (Runs.start.direct parse_axiom_DC (by decide) rfl).direct parse_goal_ABC (by decide) rfl
  have hassumed := (hstated.direct parse_assume (by decide) rfl).direct parse_assume (by decide) rfl
  exact hassumed.direct parse_by_DC (by decide) rfl

/-- Two premises are in scope, and the axiom `D => C` after `True`. -/
theorem context_at_nested_focus :
    ((initial "").replay nestedJournal).Reachable ∧
      ∃ g t path, ((initial "").replay nestedJournal).session.goals.current.goal? = some g ∧
        ((initial "").replay nestedJournal).session.goals.current.tree = some t ∧
        t.Focus path g ∧ t.Descends path ∧
        ((initial "").replay nestedJournal).session.goals.current.inScope t path (some "=>") =
          [.const "A", .const "B", .const "True", .rule (.const "D") "=>" (.const "C")] := by
  have hreachable : ((initial "").replay nestedJournal).Reachable :=
    reachable_iff_runs.mpr ⟨"", _, runs_nested⟩
  have hcontext : ((initial "").replay nestedJournal).session.goals.current.context.get?
      (some "=>") =
        some [.const "A", .const "B", .const "True", .rule (.const "D") "=>" (.const "C")] := rfl
  obtain ⟨t, path, ht, hfocus, hdescends, hscope⟩ := context_at_focus hreachable rfl
  refine ⟨hreachable, _, t, path, rfl, ht, hfocus, hdescends, ?_⟩
  have hlisted := hscope (some "=>")
  rw [hcontext] at hlisted
  split at hlisted
  · cases hlisted
  · exact (Option.some.inj hlisted).symm

end Prover

end RuleProver
