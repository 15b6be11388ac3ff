import RuleProver.Proofs.ProofOutline

/-!
# The search for the first goal

A tree is searched for goals in three ways: for the first goal, for all goals, and for the place
where an object is to be put instead of the first goal. All three go through the children of a node
from left to right. So they pass the same children without goals and go into the same child, down to
the same goal.

`Object.Exchanged` is this search, told once. What the three functions answer, and what the search
leaves alone, is read off it by induction.

## Main definitions

* `Object.Exchanged` — a tree with an object in place of its first goal, and how this goal was found

## Main results

* `Object.exists_exchanged` — a tree with a first goal is searched with success
* `Object.Exchanged.openGoals_eq`, `Object.Exchanged.openGoals_exchanged` — the goals before and
  after an exchange
* `Object.Exchanged.replaceGoal?_eq` — the tree that comes out
* `Object.firstGoal?_eq_head?` — the first goal is the first one of all goals
* `GoalState.exists_exchanged_of_update` — putting an object in place of the goal in focus
-/

namespace RuleProver

namespace Object

open RuleProver.Expr (GoalFree)

variable {t t' u g : Object} {path : List Nat} {gs : List Object}

theorem openGoals_node {m : Note} {h : Head} (hh : h ≠ .goal) (cs : List Object) :
    openGoals (.node m h cs) = cs.flatMap openGoals := by
  rw [openGoals, openGoalsOf_eq_flatMap]
  exact hh

/-- `t'` is `t` with `u` in place of its first goal `g`. The path leads to `g`, and the goals `gs`
come after it. -/
inductive Exchanged (u : Object) : Object → List Nat → Object → List Object → Object → Prop
  | here (m : Note) (cs : List Object) :
      Exchanged u (.node m .goal cs) [] (.node m .goal cs) [] u
  | child {m : Note} {h : Head} {before after : List Object} {c c' g : Object} {path : List Nat}
      {gs : List Object} (hh : h ≠ .goal) (free : ∀ b ∈ before, b.GoalFree)
      (hc : Exchanged u c path g gs c') :
      Exchanged u (.node m h (before ++ c :: after)) (before.length :: path) g
        (gs ++ after.flatMap openGoals) (.node m h (before ++ c' :: after))

/-- The first goal of a list of trees is the first one of the first tree with a goal. -/
theorem exists_split_of_firstGoalOf? {cs : List Object} (hg : firstGoalOf? cs = some g) :
    ∃ before c after, cs = before ++ c :: after ∧ (∀ b ∈ before, b.GoalFree) ∧
      firstGoal? c = some g := by
  induction cs with
  | nil =>
    rw [firstGoalOf?] at hg
    contradiction
  | cons c cs ih =>
    rw [firstGoalOf?] at hg
    cases hc : firstGoal? c with
    | some g' =>
      rw [hc] at hg
      exact ⟨[], c, cs, rfl, List.forall_mem_nil _, hc.trans hg⟩
    | none =>
      rw [hc] at hg
      obtain ⟨before, d, after, rfl, hbefore, hd⟩ := ih hg
      have hfree : c.GoalFree := firstGoal?_eq_none_iff.mp hc
      exact ⟨c :: before, d, after, rfl, List.forall_mem_cons.mpr ⟨hfree, hbefore⟩, hd⟩

theorem exists_exchanged (u : Object) (hg : t.firstGoal? = some g) :
    ∃ path gs t', Exchanged u t path g gs t' := by
  induction t using Expr.induction_on_children with
  | hole m x =>
    rw [firstGoal?] at hg
    contradiction
  | node m h cs ih =>
    by_cases hh : h = .goal
    · subst hh
      rw [firstGoal?] at hg
      obtain rfl := Option.some.inj hg
      exact ⟨[], [], u, .here m cs⟩
    · rw [firstGoal?] at hg
      · obtain ⟨before, c, after, rfl, hbefore, hc⟩ := exists_split_of_firstGoalOf? hg
        obtain ⟨path, gs, c', hsearch⟩ := ih c (by simp) hc
        exact ⟨_, _, _, .child hh hbefore hsearch⟩
      · exact hh

namespace Exchanged

theorem openGoals_eq (h : Exchanged u t path g gs t') : t.openGoals = g :: gs := by
  induction h with
  | here m cs => rw [openGoals]
  | child hh free _ ih =>
    have hbefore := List.flatMap_eq_nil_iff.mpr fun b hb => openGoals_eq_nil_iff.mpr (free b hb)
    rw [openGoals_node hh, List.flatMap_append, hbefore, List.nil_append, List.flatMap_cons, ih,
      List.cons_append]

/-- The goals of the object come first, and then those that came after the goal in its place. -/
theorem openGoals_exchanged (h : Exchanged u t path g gs t') :
    t'.openGoals = u.openGoals ++ gs := by
  induction h with
  | here m cs => rw [List.append_nil]
  | child hh free _ ih =>
    have hbefore := List.flatMap_eq_nil_iff.mpr fun b hb => openGoals_eq_nil_iff.mpr (free b hb)
    rw [openGoals_node hh, List.flatMap_append, hbefore, List.nil_append, List.flatMap_cons, ih,
      List.append_assoc]

/-- No goals come up but those of the object. -/
theorem mem_or_mem (h : Exchanged u t path g gs t') {g' : Object} (hg' : g' ∈ t'.openGoals) :
    g' ∈ u.openGoals ∨ g' ∈ t.openGoals := by
  rw [h.openGoals_exchanged, List.mem_append] at hg'
  rw [h.openGoals_eq]
  exact hg'.imp_right (List.mem_cons_of_mem g)

/-- Nothing is replaced in the trees before the first one with a goal. -/
theorem replaceGoalIn?_append {before : List Object} (free : ∀ b ∈ before, b.GoalFree)
    (ht : replaceGoal? u t = some t') (after : List Object) :
    replaceGoalIn? u (before ++ t :: after) = some (before ++ t' :: after) := by
  induction before with
  | nil => rw [List.nil_append, replaceGoalIn?, ht, List.nil_append]
  | cons b before ih =>
    obtain ⟨hb, hbefore⟩ := List.forall_mem_cons.mp free
    rw [List.cons_append, replaceGoalIn?, replaceGoal?_of_goalFree hb, ih hbefore]
    rfl

theorem replaceGoal?_eq (h : Exchanged u t path g gs t') : replaceGoal? u t = some t' := by
  induction h with
  | here m cs => rw [replaceGoal?]
  | child hh free _ ih =>
    rw [replaceGoal?, replaceGoalIn?_append free ih, Option.map_some]
    exact hh

theorem replaceGoal_eq (h : Exchanged u t path g gs t') : replaceGoal u t = t' := by
  rw [replaceGoal, h.replaceGoal?_eq, Option.getD_some]

end Exchanged

/-- The goal in focus is the first one of the open goals. -/
theorem firstGoal?_eq_head? (t : Object) : t.firstGoal? = t.openGoals.head? := by
  cases hg : t.firstGoal? with
  | none => rw [openGoals_eq_nil_iff.mpr (firstGoal?_eq_none_iff.mp hg), List.head?_nil]
  | some g =>
    obtain ⟨path, gs, t', h⟩ := exists_exchanged g hg
    rw [h.openGoals_eq, List.head?_cons]

theorem mem_openGoals_of_firstGoal? (hg : t.firstGoal? = some g) : g ∈ t.openGoals := by
  rw [firstGoal?_eq_head?] at hg
  exact List.mem_of_mem_head? hg

theorem replaceGoal_of_goalFree (ht : t.GoalFree) : replaceGoal u t = t := by
  rw [replaceGoal, replaceGoal?_of_goalFree ht, Option.getD_none]

end Object

namespace GoalState

variable {S S' : GoalState} {u g : Object}

/-- Putting an object in place of the goal in focus exchanges it in the tree, and leaves the axioms
as they are. -/
theorem exists_exchanged_of_update (hg : S.goal? = some g) (h : S.update u = .ok S') :
    ∃ tree path gs tree', S.tree = some tree ∧ Object.Exchanged u tree path g gs tree' ∧
      S' = ⟨some tree', S.axioms⟩ := by
  obtain ⟨tree, htree, hfirst⟩ := Option.bind_eq_some_iff.mp hg
  obtain ⟨path, gs, tree', hsearch⟩ := Object.exists_exchanged u hfirst
  rw [update, htree] at h
  refine ⟨tree, path, gs, tree', htree, hsearch, ?_⟩
  rw [← Except.ok.inj h, hsearch.replaceGoal_eq]

end GoalState

end RuleProver
