import RuleProver.Reduction

/-!
# Buildability

An expression is buildable for a symbol in a context when its reduced form is listed there for
that symbol, when it is a composition of two buildable expressions, or when it is a rule whose
right side is buildable for the rule's own symbol once its reduced left side is listed too.

The lists of a context are shared between a check and the checks it runs: what a rule adds under
a symbol that already has a list stays in that list, while a list that is created for a new
symbol is private to the rule. Checking therefore returns the context that it leaves behind.
-/

namespace RuleProver

/-- The expressions known for each symbol, in the order in which the symbols came up. A symbol
may be missing, as that of a composition is. -/
abbrev Context (α : Type) := List (Option String × List (Expr α))

namespace Context

variable {α : Type}

/-- The expressions listed for a symbol. -/
def get? (Γ : Context α) (s : Option String) : Option (List (Expr α)) := Γ.lookup s

/-- Lists one more expression for a symbol, after those that it has. -/
def add (Γ : Context α) (s : Option String) (t : Expr α) : Context α :=
  if (Γ.get? s).isSome then
    Γ.map fun e => if e.1 = s then (e.1, e.2 ++ [t]) else e
  else Γ ++ [(s, [t])]

/-- Whether an expression is listed for a symbol. -/
def lists (Γ : Context α) (s : Option String) (t : Expr α) : Bool :=
  match Γ.get? s with
  | some ts => t.memOf ts
  | none => false

/-- The lists of `Δ` for the symbols of `Γ`. -/
def within (Δ Γ : Context α) : Context α := Δ.filter fun e => (Γ.get? e.1).isSome

end Context

/-- What a check finds out about an expression. -/
inductive Verdict (α : Type) where
  /-- The expression, once reduced, is listed in the context. -/
  | listed (t : Expr α)
  /-- Both sides of a composition are buildable. -/
  | composed
  /-- The expression is in none of the buildable forms. -/
  | unbuildable (t : Expr α)

/-- Whether the verdict is that the expression is buildable. -/
def Verdict.holds {α : Type} : Verdict α → Bool
  | .unbuildable _ => false
  | _ => true

namespace Expr

variable {α : Type} [Inhabited α] [HoleOrder]

/-- Checks whether an expression is buildable for a symbol, and returns the context that the
check leaves behind. There is no answer when a reduction exceeds the step limit. -/
def check : Expr α → Option String → Context α → Option (Verdict α × Context α)
  | t@(.node _ (.rule s) [l, r]), sym, Γ => do
    if Γ.lists sym (← t.reduce?) then
      return (.listed t, Γ)
    let (v, Δ) ← check r (some s) (Γ.add (some s) (← l.reduce?))
    return (v, Δ.within Γ)
  | t@(.node _ .comp [l, r]), sym, Γ => do
    if Γ.lists sym (← t.reduce?) then
      return (.listed t, Γ)
    let (v, Δ) ← check l sym Γ
    if !v.holds then
      return (v, Δ)
    let (w, Θ) ← check r sym Δ
    return (if w.holds then .composed else w, Θ)
  | t, sym, Γ => do
    return (if Γ.lists sym (← t.reduce?) then .listed t else .unbuildable t, Γ)

end Expr

end RuleProver
