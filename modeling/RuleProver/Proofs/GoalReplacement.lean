import RuleProver.Proofs.FocusScope

/-!
# Replacing the goal in focus

Putting an object in place of the goal in focus is local. The goal in focus stands at the first path
that leads to a goal, in the order in which a part comes before what is inside it and before what is
to its right. The tree is changed at this path and nowhere else: the nodes above keep their heads,
their notes and their other children, and whatever is to the left or to the right of the path stays
as it is. So the open goals of the object come in place of the first open goal, and the others stay
behind them in their order.

## Main results

* `Expr.at?_replaceAt_of_not_isPrefix` — what is at other paths
* `Object.Exchanged.replaceAt_eq` — the search for the first goal replaces at the path to it
* `GoalState.update_replaces_focus` — what putting an object in place of the goal in focus does
-/

namespace RuleProver

/-! ## Replacing at a path -/

namespace Expr

variable {α : Type} {t : Expr α} {path q : List Nat}

/-- The child that a path goes through is changed, and no other one. -/
theorem replaceAt_node_cons (m : α) (h : Head) (cs : List (Expr α)) (i : Nat) (path : List Nat)
    (u : Expr α) : (node m h cs).replaceAt (i :: path) u =
      .node m h (cs.modify i fun c => c.replaceAt path u) :=
  rfl

theorem at?_replaceAt_self {c : Expr α} (h : t.at? path = some c) (u : Expr α) :
    (t.replaceAt path u).at? path = some u := by
  induction path generalizing t with
  | nil => rfl
  | cons i path ih =>
    cases t with
    | hole m x =>
      rw [at?_hole_cons] at h
      contradiction
    | node m hd cs =>
      rw [at?_node_cons] at h
      obtain ⟨d, hd', hpath⟩ := Option.bind_eq_some_iff.mp h
      rw [replaceAt_node_cons, at?_node_cons, List.getElem?_modify_eq, hd', Option.map_eq_map,
        Option.map_some, Option.bind_some]
      exact ih hpath

/-- At a path that neither leads on from the replaced part nor to it, nothing changes. -/
theorem at?_replaceAt_of_not_isPrefix (hpq : ¬ path <+: q) (hqp : ¬ q <+: path) (t u : Expr α) :
    (t.replaceAt path u).at? q = t.at? q := by
  induction path generalizing t q with
  | nil => exact absurd List.nil_prefix hpq
  | cons i path ih =>
    cases q with
    | nil => exact absurd List.nil_prefix hqp
    | cons j q =>
      cases t with
      | hole m x => rfl
      | node m hd cs =>
        rw [replaceAt_node_cons, at?_node_cons, at?_node_cons]
        by_cases hij : i = j
        · subst hij
          have hchild : ∀ c : Expr α, (c.replaceAt path u).at? q = c.at? q :=
            ih (fun h => hpq (List.cons_prefix_cons.mpr ⟨rfl, h⟩))
              fun h => hqp (List.cons_prefix_cons.mpr ⟨rfl, h⟩)
          rw [List.getElem?_modify_eq]
          cases cs[i]? with
          | none => rfl
          | some c => exact hchild c
        · rw [List.getElem?_modify_ne _ _ hij]

end Expr

/-! ## The goal in focus -/

theorem Object.Exchanged.replaceAt_eq {u t g t' : Object} {path : List Nat} {gs : List Object}
    (h : Exchanged u t path g gs t') : t' = t.replaceAt path u := by
  induction h with
  | here m cs => rfl
  | child _ _ _ ih => rw [Expr.replaceAt_node, ih]

namespace GoalState

variable {S : GoalState} {T : Object}

/-- **Putting an object in place of the goal in focus changes the tree there and nowhere else.** The
goal in focus is the first open goal, if there is one. The open goals of the object come in its
place, and the others after them. The axioms stay, and so does every part of the tree that neither
has the goal inside nor lies inside it. A tree without open goals stays as a whole. -/
theorem update_replaces_focus (hT : S.tree = some T) (n : Object) :
    S.goal? = S.goals.head? ∧ ∃ S', S.update n = .ok S' ∧ S'.axioms = S.axioms ∧
      (∀ g gs, S.goals = g :: gs → S'.goals = n.openGoals ++ gs ∧
        ∃ path, T.Focus path g ∧ S'.tree = some (T.replaceAt path n) ∧
          (T.replaceAt path n).at? path = some n ∧
          ∀ q, ¬ q <+: path → ¬ path <+: q → (T.replaceAt path n).at? q = T.at? q) ∧
      (S.goals = [] → S'.tree = some T) := by
  have hgoal : S.goal? = T.firstGoal? := by rw [goal?, hT, Option.bind_some]
  have hgoals : S.goals = T.openGoals := by rw [goals, hT, Option.map_some, Option.getD_some]
  have hupdate : S.update n = .ok ⟨some (Object.replaceGoal n T), S.axioms⟩ := by rw [update, hT]
  refine ⟨?_, _, hupdate, rfl, fun g gs hgs => ?_, fun hnone => ?_⟩
  · rw [hgoal, hgoals, Object.firstGoal?_eq_head?]
  · have hfirst : T.firstGoal? = some g := by
      rw [Object.firstGoal?_eq_head?, ← hgoals, hgs, List.head?_cons]
    obtain ⟨path, gs', T', hsearch⟩ := Object.exists_exchanged n hfirst
    obtain rfl : gs = gs' := by
      rw [hgoals, hsearch.openGoals_eq] at hgs
      exact (List.cons.inj hgs).2.symm
    refine ⟨?_, path, hsearch.focus, ?_, ?_, fun q hqp hpq => ?_⟩
    · rw [goals, Option.map_some, Option.getD_some, hsearch.replaceGoal_eq]
      exact hsearch.openGoals_exchanged
    · rw [hsearch.replaceGoal_eq, hsearch.replaceAt_eq]
    · exact Expr.at?_replaceAt_self hsearch.focus.at_path n
    · exact Expr.at?_replaceAt_of_not_isPrefix hpq hqp T n
  · rw [hgoals, Object.openGoals_eq_nil_iff] at hnone
    rw [Object.replaceGoal_of_goalFree hnone]

/-- An open goal for a constant under `=>`. -/
def constGoal (name : String) : Object :=
  .node (.mk none (some (some "=>", .const name))) .goal [.const name]

/-- A tree with two open goals, one on each side of a composition. -/
def twoGoals : GoalState :=
  ⟨some (.comp (constGoal "A") (.rule (.const "B") "=>" (constGoal "C"))), []⟩

/-- A rule with an open goal inside comes in place of the first of two goals. The second one stays,
and so does the rule above it. -/
theorem update_replaces_first_of_two :
    twoGoals.goals = [constGoal "A", constGoal "C"] ∧
      ∃ S', twoGoals.update (.rule (.const "D") "=>" (constGoal "E")) = .ok S' ∧
        S'.goals = [constGoal "E", constGoal "C"] ∧
        S'.tree = some (.comp (.rule (.const "D") "=>" (constGoal "E"))
          (.rule (.const "B") "=>" (constGoal "C"))) := by
  have hgoals : twoGoals.goals = [constGoal "A", constGoal "C"] := rfl
  obtain ⟨-, S', hupdate, -, hfocus, -⟩ :=
    update_replaces_focus (S := twoGoals) rfl (.rule (.const "D") "=>" (constGoal "E"))
  obtain ⟨hgoals', -⟩ := hfocus _ _ hgoals
  refine ⟨hgoals, S', hupdate, hgoals', ?_⟩
  rw [← Except.ok.inj hupdate]
  rfl

end GoalState

end RuleProver
