import RuleProver.Expr

/-!
# Unification

An assignment maps hole names to expressions. Unifying two expressions walks them together and
assigns holes on either side; an assigned hole must meet the same expression again. Bindings made
before a clash stay in the assignment, so unification returns the assignment in every case,
together with whether it succeeded.

Matching is the one-sided form: only the holes of the pattern are assigned.
-/

namespace RuleProver

/-- A finite map from hole names to expressions, in the order in which they were bound. -/
abbrev Assignment (α : Type) := List (String × Expr α)

namespace Assignment

variable {α : Type}

/-- The expression that a hole stands for. -/
def get? (σ : Assignment α) (x : String) : Option (Expr α) := σ.lookup x

/-- Binds a hole that has no value yet; a bound hole agrees with the same expression only. -/
def bind (σ : Assignment α) (x : String) (t : Expr α) : Bool × Assignment α :=
  match σ.get? x with
  | some u => (u.same t, σ)
  | none => (true, σ ++ [(x, t)])

/-- The bindings of `σ` for names that `τ` leaves open, and all bindings of `τ`. -/
def override (σ τ : Assignment α) : Assignment α :=
  σ.filter (fun b => (τ.get? b.1).isNone) ++ τ

end Assignment

namespace Expr

variable {α : Type}

/-- Fills the holes that an assignment binds. -/
def fill (t : Expr α) (σ : Assignment α) : Expr α := t.subst σ.get?

mutual

/-- Unifies two expressions, starting from the bindings of `σ`. A hole on the right is bound
first, then a hole on the left; nodes must agree in head and number of children. -/
def unify : Expr α → Expr α → Assignment α → Bool × Assignment α
  | a, .hole _ y, σ => σ.bind y a
  | .hole _ x, .node m k bs, σ => σ.bind x (.node m k bs)
  | .node _ h as, .node _ k bs, σ =>
    if h = k ∧ as.length = bs.length then unifyAll as bs σ else (false, σ)

/-- Unifies two lists of expressions place by place, until a place fails. -/
def unifyAll : List (Expr α) → List (Expr α) → Assignment α → Bool × Assignment α
  | a :: as, b :: bs, σ =>
    match unify a b σ with
    | (true, τ) => unifyAll as bs τ
    | (false, τ) => (false, τ)
  | _, _, σ => (true, σ)

end

/-- The assignment under which two expressions become the same, if unification finds one. -/
def unifier? (a b : Expr α) : Option (Assignment α) :=
  match a.unify b [] with
  | (true, σ) => some σ
  | (false, _) => none

mutual

/-- Matches an expression against a pattern. Every child is matched on its own, and of two
bindings for one hole the later one stays. -/
def matchPattern : Expr α → Expr α → Option (Assignment α)
  | a, .hole _ y => some [(y, a)]
  | .hole _ _, .node _ _ _ => none
  | .node _ h as, .node _ k bs =>
    if h = k ∧ as.length = bs.length then matchPatterns as bs [] else none

/-- Matches a list of expressions against a list of patterns, adding to the bindings `σ`. -/
def matchPatterns : List (Expr α) → List (Expr α) → Assignment α → Option (Assignment α)
  | a :: as, b :: bs, σ =>
    match matchPattern a b with
    | some τ => matchPatterns as bs (σ.override τ)
    | none => none
  | _, _, σ => some σ

end

end Expr

end RuleProver
