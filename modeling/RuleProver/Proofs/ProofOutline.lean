import RuleProver.Goal.Step
import RuleProver.Proofs.Buildable
import RuleProver.Proofs.Heads

/-!
# Proof outlines

The tree of a backward proof is an outline of something buildable: its parts without open goals are
buildable where they stand, and whatever is put in place of an open goal has to be buildable there.
So a tree that has no open goals left is buildable.

What may be used at the goal in focus are the left sides of the rules above it. Putting an outline
from these in place of the goal gives an outline again, which is what every step of a proof does.

## Main definitions

* `Object.Outline` — trees whose parts are buildable but for their open goals
* `Object.assumptions?` — the left sides of the rules above the goal in focus

## Main results

* `Object.Outline.buildable` — an outline without open goals is buildable
* `Object.Outline.replace` — an outline may be put in place of the goal in focus
-/

namespace RuleProver

namespace Object

open RuleProver.Expr (GoalFree Buildable Reduced)

variable {Γ Δ : Context Note} {s : Option String} {t u : Object}

/-! ## Trees without open goals -/

theorem openGoalsOf_eq_flatMap (cs : List Object) : openGoalsOf cs = cs.flatMap openGoals := by
  induction cs with
  | nil => rw [openGoalsOf, List.flatMap_nil]
  | cons c cs ih => rw [openGoalsOf, ih, List.flatMap_cons]

/-- A tree has no open goals exactly when no goal stands anywhere in it. -/
theorem openGoals_eq_nil_iff : t.openGoals = [] ↔ t.GoalFree := by
  induction t using Expr.induction_on_children with
  | hole m x => simp [openGoals]
  | node m h cs ih =>
    by_cases hh : h = .goal
    · subst hh
      simp [openGoals]
    · rw [openGoals, openGoalsOf_eq_flatMap, List.flatMap_eq_nil_iff, Expr.goalFree_node]
      · simp only [hh, ne_eq, not_false_iff, true_and]
        exact forall₂_congr ih
      · exact hh

theorem firstGoalOf?_eq_none_iff {cs : List Object} :
    firstGoalOf? cs = none ↔ ∀ c ∈ cs, firstGoal? c = none := by
  induction cs with
  | nil => simp [firstGoalOf?]
  | cons c cs ih =>
    rw [firstGoalOf?]
    cases hc : firstGoal? c <;> simp [hc, ih]

theorem firstGoal?_eq_none_iff : t.firstGoal? = none ↔ t.GoalFree := by
  induction t using Expr.induction_on_children with
  | hole m x => simp [firstGoal?]
  | node m h cs ih =>
    by_cases hh : h = .goal
    · subst hh
      simp [firstGoal?]
    · rw [firstGoal?, firstGoalOf?_eq_none_iff, Expr.goalFree_node]
      · simp only [hh, ne_eq, not_false_iff, true_and]
        exact forall₂_congr ih
      · exact hh

theorem replaceGoalIn?_eq_none {cs : List Object} (h : ∀ c ∈ cs, replaceGoal? u c = none) :
    replaceGoalIn? u cs = none := by
  induction cs with
  | nil => rw [replaceGoalIn?]
  | cons c cs ih =>
    rw [replaceGoalIn?, h c List.mem_cons_self, ih fun c hc => h c (List.mem_cons_of_mem _ hc)]
    rfl

theorem replaceGoal?_of_goalFree (ht : t.GoalFree) : replaceGoal? u t = none := by
  induction t using Expr.induction_on_children with
  | hole m x => rw [replaceGoal?]
  | node m h cs ih =>
    rw [Expr.goalFree_node] at ht
    rw [replaceGoal?, replaceGoalIn?_eq_none fun c hc => ih c hc (ht.2 c hc)]
    · rfl
    · exact ht.1

/-! ## The goal in focus -/

theorem firstGoal?_pair {m : Note} {h : Head} {l r : Object} (hh : h ≠ .goal) :
    firstGoal? (.node m h [l, r]) = (firstGoal? l).or (firstGoal? r) := by
  rw [firstGoal?]
  · cases hl : firstGoal? l <;> cases hr : firstGoal? r <;> simp [firstGoalOf?, hl, hr]
  · exact hh

theorem replaceGoal?_pair {m : Note} {h : Head} {l r : Object} (hh : h ≠ .goal) :
    replaceGoal? u (.node m h [l, r]) = ((replaceGoal? u l).map (.node m h [·, r])).or
      ((replaceGoal? u r).map (.node m h [l, ·])) := by
  rw [replaceGoal?]
  · cases hl : replaceGoal? u l <;> cases hr : replaceGoal? u r <;> simp [replaceGoalIn?, hl, hr]
  · exact hh

/-- The left sides of the rules above the goal in focus, each with the symbol of its rule. There
is no answer when no goal lies below rules and compositions. -/
def assumptions? : Object → Option (List (Option String × Object))
  | .node _ .goal _ => some []
  | .node _ (.rule s) [l, r] => (assumptions? r).map ((some s, l) :: ·)
  | .node _ .comp [l, r] => (assumptions? l).or (assumptions? r)
  | _ => none

theorem scope?_eq_map (t : Object) (Γ : Context Note) :
    t.scope? Γ = t.assumptions?.map Γ.addAll := by
  fun_induction assumptions? t generalizing Γ with
  | case1 m cs => rfl
  | case2 m s l r ih =>
    rw [scope?, ih, Option.map_map]
    rfl
  | case3 m l r ihl ihr =>
    rw [scope?, ihl, ihr]
    cases assumptions? l <;> rfl
  | case4 t hgoal hrule hcomp =>
    rw [scope?]
    · rfl
    · exact hgoal
    · exact hrule
    · exact hcomp

/-- No rule above a goal is found where there is no goal. -/
theorem assumptions?_of_goalFree (ht : t.GoalFree) : t.assumptions? = none := by
  fun_induction assumptions? t with
  | case1 => simp at ht
  | case2 m s l r ih => rw [ih (Expr.goalFree_pair.mp ht).2.2, Option.map_none]
  | case3 m l r ihl ihr =>
    obtain ⟨-, hl, hr⟩ := Expr.goalFree_pair.mp ht
    rw [ihl hl, ihr hr, Option.none_or]
  | case4 => rfl

/-! ## Outlines -/

variable [HoleOrder]

/-- A tree that is buildable for a symbol in a context once its open goals are. A goal keeps the
symbol that it is to be built for, and what is to be built is in reduced form. -/
inductive Outline : Context Note → Option String → Object → Prop
  | goal {Γ : Context Note} {s : String} {m : Note} {t : Object}
      (symbol : m.goal.bind (·.1) = some s) (free : t.GoalFree) (reduced : t.Reduced) :
      Outline Γ (some s) (.node m .goal [t])
  | built {Γ : Context Note} {s : Option String} {t : Object} (free : t.GoalFree)
      (built : Buildable Γ s t) : Outline Γ s t
  | comp {Γ : Context Note} {s : Option String} {m : Note} {l r : Object} (left : Outline Γ s l)
      (right : Outline Γ s r) : Outline Γ s (.node m .comp [l, r])
  | rule {Γ : Context Note} {s : Option String} {m : Note} {s' : String} {l r : Object}
      (free : l.GoalFree) (reduced : l.Reduced) (right : Outline (Γ.add (some s') l) (some s') r) :
      Outline Γ s (.node m (.rule s') [l, r])

theorem Outline.mono (h : Outline Γ s t) (hΓ : Γ.Included Δ) : Outline Δ s t := by
  induction h generalizing Δ with
  | goal symbol free reduced => exact .goal symbol free reduced
  | built free built => exact .built free (built.mono hΓ)
  | comp _ _ ihl ihr => exact .comp (ihl hΓ) (ihr hΓ)
  | rule free reduced _ ih => exact .rule free reduced (ih (hΓ.add _ _))

/-- **An outline without open goals is buildable.** -/
theorem Outline.buildable (h : Outline Γ s t) (ht : t.GoalFree) : Buildable Γ s t := by
  induction h with
  | goal => simp at ht
  | built _ built => exact built
  | comp _ _ ihl ihr =>
    obtain ⟨-, hl, hr⟩ := Expr.goalFree_pair.mp ht
    exact .comp (ihl hl) (ihr hr)
  | rule _ reduced _ ih => exact .rule reduced.reduce? (ih (Expr.goalFree_pair.mp ht).2.2)

/-- What is known about a goal in an outline. -/
structure GoalFor (g : Object) (s : String) (t : Object) : Prop where
  term : g.goalTerm? = some t
  symbol : g.goalSymbol = some s
  free : t.GoalFree
  reduced : t.Reduced

/-- **Putting an outline in place of the goal in focus.** The new part may use what the outline
itself may use and the left sides of the rules above the goal. -/
theorem Outline.replace {g : Object} (h : Outline Γ s t) (hg : t.firstGoal? = some g) :
    ∃ es s' t', t.assumptions? = some es ∧ GoalFor g s' t' ∧
      ∀ u, Outline (Γ.addAll es) (some s') u →
        ∃ t'', replaceGoal? u t = some t'' ∧ Outline Γ s t'' := by
  induction h with
  | @goal Γ s m t symbol free reduced =>
    rw [firstGoal?] at hg
    cases hg
    exact ⟨[], s, t, rfl, ⟨rfl, symbol, free, reduced⟩, fun u hu => ⟨u, rfl, hu⟩⟩
  | built free =>
    rw [firstGoal?_eq_none_iff.mpr free] at hg
    contradiction
  | @comp Γ s m l r left right ihl ihr =>
    rw [firstGoal?_pair Head.noConfusion] at hg
    cases hl : firstGoal? l with
    | some g' =>
      rw [hl, Option.some_or] at hg
      cases hg
      obtain ⟨es, s', t', hes, hgoal, hreplace⟩ := ihl hl
      refine ⟨es, s', t', by rw [assumptions?, hes, Option.some_or], hgoal, fun u hu => ?_⟩
      obtain ⟨l', hl', hout⟩ := hreplace u hu
      rw [replaceGoal?_pair Head.noConfusion, hl', Option.map_some, Option.some_or]
      exact ⟨_, rfl, .comp hout right⟩
    | none =>
      rw [hl, Option.none_or] at hg
      have hfree : l.GoalFree := firstGoal?_eq_none_iff.mp hl
      obtain ⟨es, s', t', hes, hgoal, hreplace⟩ := ihr hg
      refine ⟨es, s', t', ?_, hgoal, fun u hu => ?_⟩
      · rw [assumptions?, assumptions?_of_goalFree hfree, Option.none_or, hes]
      · obtain ⟨r', hr', hout⟩ := hreplace u hu
        rw [replaceGoal?_pair Head.noConfusion, replaceGoal?_of_goalFree hfree, hr']
        exact ⟨_, rfl, .comp left hout⟩
  | @rule Γ s m s₀ l r free reduced right ih =>
    rw [firstGoal?_pair Head.noConfusion, firstGoal?_eq_none_iff.mpr free, Option.none_or] at hg
    obtain ⟨es, s', t', hes, hgoal, hreplace⟩ := ih hg
    refine ⟨(some s₀, l) :: es, s', t', by rw [assumptions?, hes, Option.map_some], hgoal,
      fun u hu => ?_⟩
    obtain ⟨r', hr', hout⟩ := hreplace u hu
    rw [replaceGoal?_pair Head.noConfusion, replaceGoal?_of_goalFree free, hr']
    exact ⟨_, rfl, .rule free reduced hout⟩

end Object

end RuleProver
