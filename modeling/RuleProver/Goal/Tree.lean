import RuleProver.Fault

/-!
# Goal trees

The state of a backward proof is a tree: an object in which open goals stand for the parts that
are still to be built. The first open goal, from left to right, is the one in focus. What may be
used for it are the left sides of the rules above it and the axioms.
-/

namespace RuleProver

namespace Object

mutual

/-- The first open goal of a tree. -/
def firstGoal? : Object → Option Object
  | .hole _ _ => none
  | .node m .goal cs => some (.node m .goal cs)
  | .node _ _ cs => firstGoalOf? cs

/-- The first open goal of a list of trees. -/
def firstGoalOf? : List Object → Option Object
  | [] => none
  | c :: cs =>
    match firstGoal? c with
    | some g => some g
    | none => firstGoalOf? cs

end

mutual

/-- The open goals of a tree, from left to right. -/
def openGoals : Object → List Object
  | .hole _ _ => []
  | .node m .goal cs => [.node m .goal cs]
  | .node _ _ cs => openGoalsOf cs

/-- The open goals of a list of trees. -/
def openGoalsOf : List Object → List Object
  | [] => []
  | c :: cs => openGoals c ++ openGoalsOf cs

end

mutual

/-- Puts an object in place of the first open goal, if there is one. -/
def replaceGoal? (t : Object) : Object → Option Object
  | .hole _ _ => none
  | .node _ .goal _ => some t
  | .node m h cs => (replaceGoalIn? t cs).map (.node m h ·)

/-- Puts an object in place of the first open goal of a list of trees. -/
def replaceGoalIn? (t : Object) : List Object → Option (List Object)
  | [] => none
  | c :: cs =>
    match replaceGoal? t c with
    | some c' => some (c' :: cs)
    | none => (replaceGoalIn? t cs).map (c :: ·)

end

/-- Puts an object in place of the first open goal. A tree without goals stays as it is. -/
def replaceGoal (t tree : Object) : Object := (replaceGoal? t tree).getD tree

/-- What is known at the focus of a tree besides `Γ`: the left sides of the rules above it. There
is no answer when no goal lies below rules and compositions. -/
def scope? : Object → Context Note → Option (Context Note)
  | .node _ .goal _, Γ => some Γ
  | .node _ (.rule s) [l, r], Γ => scope? r (Γ.add (some s) l)
  | .node _ .comp [l, r], Γ =>
    match scope? l Γ with
    | some Δ => some Δ
    | none => scope? r Γ
  | _, _ => none

end Object

/-- A proof under construction: its tree, if a goal has been stated, and the axioms, each with
the symbol that it holds for. -/
structure GoalState where
  tree : Option Object
  axioms : List (Option String × Object)

namespace GoalState

/-- At first there is no goal, and `True` holds for `=>`. -/
def initial : GoalState := ⟨none, [(some "=>", Expr.const "True")]⟩

/-- The goal in focus. -/
def goal? (S : GoalState) : Option Object := S.tree.bind Object.firstGoal?

/-- The open goals. -/
def goals (S : GoalState) : List Object := (S.tree.map Object.openGoals).getD []

/-- States a new goal in place of all that was there. -/
def setGoal [HoleOrder] (S : GoalState) (t : Object) (symbol : Option String) :
    Except Fault (GoalState × Object) := do
  let g ← Object.goal symbol t
  return (⟨some g, S.axioms⟩, g)

/-- Adds an axiom for a symbol. -/
def addAxiom (S : GoalState) (symbol : Option String) (t : Object) : GoalState :=
  ⟨S.tree, S.axioms ++ [(symbol, t)]⟩

/-- What may be used for the goal in focus: the left sides of the rules above it, then the
axioms. -/
def context (S : GoalState) : Context Note :=
  let Γ := (S.tree.bind fun t => t.scope? []).getD []
  S.axioms.foldl (fun Γ (s, t) => Γ.add s t) Γ

/-- Puts an object in place of the goal in focus. -/
def update (S : GoalState) (t : Object) : Except Fault GoalState :=
  match S.tree with
  | none => .error (.noGoal .tree)
  | some tree => .ok ⟨some (Object.replaceGoal t tree), S.axioms⟩

end GoalState

end RuleProver
