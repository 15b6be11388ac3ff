/-!
# Expressions

Everything the prover talks about is an expression: a *hole*, which stands for any expression, or
a *node*, which is a head over a list of children. The heads are terms `f(a, b)`, rules
`l => r` under any symbol, compositions `l | r`, open goals, and foreign kinds that the prover
carries along without giving them a meaning.

Every node and hole carries a mark of some type `α`. Marks remember where an expression came
from; matching, composing, reducing and checking never look at them. Two expressions are the same
when they agree once the marks are forgotten, which `Expr.erase` does and `Expr.same` decides.
-/

namespace RuleProver

/-- What a node is: its kind, together with the name or symbol that the kind has. -/
inductive Head where
  /-- A term with a name, such as `zero` or `f(x)`. -/
  | term (name : String)
  /-- A rule from its first child to its second, such as `a => b`. -/
  | rule (symbol : String)
  /-- A composition of its two children, such as `a | b`. -/
  | comp
  /-- An open goal around the expression to be built. -/
  | goal
  /-- A node of any other kind. -/
  | other (kind : String) (handle : Option String)
deriving DecidableEq, Inhabited

/-- The name or symbol of a head. A composition has none, and that of a goal is empty. -/
def Head.handle : Head → Option String
  | .term name => some name
  | .rule symbol => some symbol
  | .comp => none
  | .goal => some ""
  | .other _ handle => handle

/-- Expressions whose holes and nodes carry marks of type `α`. -/
inductive Expr (α : Type) where
  /-- A hole `#name`. -/
  | hole (mark : α) (name : String)
  /-- A head over a list of children. -/
  | node (mark : α) (head : Head) (children : List (Expr α))

namespace Expr

variable {α β : Type}

instance [Inhabited α] : Inhabited (Expr α) := ⟨.hole default ""⟩

/-! ## Building -/

section Building

variable [Inhabited α]

/-- The hole `#name`. -/
abbrev var (name : String) : Expr α := .hole default name

/-- The term `name(args)`, or the constant `name` when there are no arguments. -/
abbrev term (name : String) (args : List (Expr α)) : Expr α := .node default (.term name) args

/-- The constant `name`. -/
abbrev const (name : String) : Expr α := .node default (.term name) []

/-- The rule `left symbol right`. -/
abbrev rule (left : Expr α) (symbol : String) (right : Expr α) : Expr α :=
  .node default (.rule symbol) [left, right]

/-- The composition `left | right`. -/
abbrev comp (left right : Expr α) : Expr α := .node default .comp [left, right]

/-- The rule that takes `t` to itself. -/
def identity (t : Expr α) (symbol : String) : Expr α := rule t symbol t

end Building

/-! ## Parts -/

/-- The mark of the root. -/
def mark : Expr α → α
  | .hole m _ => m
  | .node m _ _ => m

/-- The same expression with another mark at the root. -/
def withMark (m : α) : Expr α → Expr α
  | .hole _ x => .hole m x
  | .node _ h cs => .node m h cs

/-- The children of the root. A hole has none. -/
def children : Expr α → List (Expr α)
  | .hole _ _ => []
  | .node _ _ cs => cs

/-- The name or symbol at the root. -/
def handle : Expr α → Option String
  | .hole _ x => some x
  | .node _ h _ => h.handle

/-- The same root over other children. A hole stays as it is. -/
def withChildren (cs : List (Expr α)) : Expr α → Expr α
  | .hole m x => .hole m x
  | .node m h _ => .node m h cs

/-- The left part of an expression with two children. -/
def left? : Expr α → Option (Expr α)
  | .node _ _ [l, _] => some l
  | _ => none

/-- The right part of an expression with two children. -/
def right? : Expr α → Option (Expr α)
  | .node _ _ [_, r] => some r
  | _ => none

/-- The subexpression reached by a path of child indices. -/
def at? (t : Expr α) : List Nat → Option (Expr α)
  | [] => some t
  | i :: path => t.children[i]?.bind fun c => c.at? path

/-! ## Sameness up to marks -/

mutual

/-- Forgets the marks. -/
def erase : Expr α → Expr Unit
  | .hole _ x => .hole () x
  | .node _ h cs => .node () h (eraseAll cs)

/-- Forgets the marks of a list of expressions. -/
def eraseAll : List (Expr α) → List (Expr Unit)
  | [] => []
  | c :: cs => erase c :: eraseAll cs

end

mutual

/-- Whether two expressions agree up to their marks. -/
def same : Expr α → Expr β → Bool
  | .hole _ x, .hole _ y => x == y
  | .node _ h as, .node _ k bs => h == k && sameAll as bs
  | _, _ => false

/-- Whether two lists of expressions agree up to marks, place by place. -/
def sameAll : List (Expr α) → List (Expr β) → Bool
  | [], [] => true
  | a :: as, b :: bs => same a b && sameAll as bs
  | _, _ => false

end

/-- Whether an expression that is the same as `t` stands in the list. -/
def memOf (t : Expr α) (ts : List (Expr β)) : Bool := ts.any (t.same ·)

mutual

/-- Two expressions are the same exactly when they are equal once the marks are forgotten. -/
theorem same_iff : (a : Expr α) → (b : Expr β) → (a.same b = true ↔ a.erase = b.erase)
  | .hole _ x, .hole _ y => by simp [same, erase]
  | .node _ h as, .node _ k bs => by simp [same, erase, sameAll_iff as bs]
  | .hole _ _, .node _ _ _ => by simp [same, erase]
  | .node _ _ _, .hole _ _ => by simp [same, erase]

/-- The list form of `same_iff`. -/
theorem sameAll_iff : (as : List (Expr α)) → (bs : List (Expr β)) →
    (sameAll as bs = true ↔ eraseAll as = eraseAll bs)
  | [], [] => by simp [sameAll, eraseAll]
  | a :: as, b :: bs => by simp [sameAll, eraseAll, same_iff a b, sameAll_iff as bs]
  | [], _ :: _ => by simp [sameAll, eraseAll]
  | _ :: _, [] => by simp [sameAll, eraseAll]

end

theorem same_refl (a : Expr α) : a.same a = true := (same_iff a a).2 rfl

/-- Forgetting the marks of a list is forgetting the marks of each member. -/
theorem eraseAll_eq_map (ts : List (Expr α)) : eraseAll ts = ts.map erase := by
  induction ts with
  | nil => rfl
  | cons t ts ih => simp [eraseAll, ih]

mutual

/-- Without marks, forgetting changes nothing. -/
theorem erase_unit : (a : Expr Unit) → a.erase = a
  | .hole _ _ => rfl
  | .node _ _ as => by simp [erase, eraseAll_unit as]

/-- The list form of `erase_unit`. -/
theorem eraseAll_unit : (as : List (Expr Unit)) → eraseAll as = as
  | [] => rfl
  | a :: as => by simp [eraseAll, erase_unit a, eraseAll_unit as]

end

/-- Without marks, the same expressions are equal. -/
theorem same_iff_eq (a b : Expr Unit) : a.same b = true ↔ a = b := by
  rw [same_iff, erase_unit, erase_unit]

instance : DecidableEq (Expr Unit) := fun a b => decidable_of_iff _ (same_iff_eq a b)

/-! ## Holes -/

mutual

/-- The names of the holes of an expression, once for each occurrence, from left to right. -/
def holes : Expr α → List String
  | .hole _ x => [x]
  | .node _ _ cs => holesAll cs

/-- The names of the holes of a list of expressions. -/
def holesAll : List (Expr α) → List String
  | [] => []
  | c :: cs => holes c ++ holesAll cs

end

/-- The names of the holes of an expression, each once, in the order of first occurrence. -/
def holeNames (t : Expr α) : List String := t.holes.eraseDups

mutual

/-- Renames the holes. -/
def rename (ρ : String → String) : Expr α → Expr α
  | .hole m x => .hole m (ρ x)
  | .node m h cs => .node m h (renameAll ρ cs)

/-- Renames the holes of a list of expressions. -/
def renameAll (ρ : String → String) : List (Expr α) → List (Expr α)
  | [] => []
  | c :: cs => rename ρ c :: renameAll ρ cs

end

mutual

/-- Fills the holes for which `σ` has an expression, all at once. -/
def subst (σ : String → Option (Expr α)) : Expr α → Expr α
  | .hole m x => (σ x).getD (.hole m x)
  | .node m h cs => .node m h (substAll σ cs)

/-- Fills the holes of a list of expressions. -/
def substAll (σ : String → Option (Expr α)) : List (Expr α) → List (Expr α)
  | [] => []
  | c :: cs => subst σ c :: substAll σ cs

end

end Expr

end RuleProver
