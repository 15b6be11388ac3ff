import RuleProver.Buildability

/-!
# Objects

The objects of a proof session are expressions whose marks are *notes*. A note may say that an
object was put in place of a defined name, with the expression that the name stood for then, so
that the name can be shown again as long as the object is unchanged. The note of an open goal
keeps the symbol that the goal is to be built for and the statement before it was reduced.
-/

namespace RuleProver

/-- What an object remembers besides its form. -/
inductive Note where
  /-- The name it was expanded from together with the expansion, and for a goal its symbol
  together with its statement as given. -/
  | mk (expandedFrom : Option (String × Expr Unit)) (goal : Option (Option String × Expr Note))

namespace Note

instance : Inhabited Note := ⟨.mk none none⟩

/-- The name that the object was put in place of, and what the name stood for. -/
def expandedFrom : Note → Option (String × Expr Unit)
  | .mk e _ => e

/-- The symbol and the statement of a goal. -/
def goal : Note → Option (Option String × Expr Note)
  | .mk _ g => g

end Note

/-- An expression with notes. -/
abbrev Object := Expr Note

namespace Object

/-- An open goal for a statement: its child is the reduced statement. -/
def goal? [HoleOrder] (symbol : Option String) (statement : Object) : Option Object :=
  statement.reduce?.map fun t => .node (.mk none (some (symbol, statement))) .goal [t]

/-- The symbol that a goal is to be built for. -/
def goalSymbol (g : Object) : Option String := g.mark.goal.bind (·.1)

/-- The statement of a goal, before reduction. -/
def goalStatement? (g : Object) : Option Object := g.mark.goal.map (·.2)

/-- What is to be built for a goal: its only child. -/
def goalTerm? : Object → Option Object
  | .node _ .goal [t] => some t
  | _ => none

end Object

end RuleProver
