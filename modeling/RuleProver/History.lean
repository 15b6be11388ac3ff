/-!
# Histories

A history keeps a stack of states, so that changes can be undone one by one. A place in the stack
can be marked with a name and returned to later; marks of later places are lost on the way.

The current state is kept beside the stack. It is the top of the stack as long as the stack is not
cut down to nothing, which only `History.truncate` can do: then the current state stays, and what
is pushed later starts a new stack. A place marked while the stack is empty lies below its bottom.
-/

namespace RuleProver

/-- A state with its past. -/
structure History (σ : Type) where
  /-- The state now. -/
  current : σ
  /-- The states that have been kept, the latest first. -/
  stack : List σ
  /-- Names for places, each with the number of states below that place. -/
  marks : List (String × Int)

namespace History

variable {σ : Type}

/-- A history that starts in a state. -/
def ofState (s : σ) : History σ := ⟨s, [s], []⟩

/-- The number of states that have been kept. -/
def depth (h : History σ) : Nat := h.stack.length

/-- All states that have been kept, from the first to the latest. -/
def states (h : History σ) : List σ := h.stack.reverse

/-- Moves on to a new state. -/
def push (h : History σ) (s : σ) : History σ := { h with current := s, stack := s :: h.stack }

/-- Goes back by one state. At the first state there is nowhere to go. -/
def undo (h : History σ) : Bool × History σ :=
  match h.stack with
  | _ :: s :: past => (true, { h with current := s, stack := s :: past })
  | _ => (false, h)

/-- Marks the current place. -/
def mark (h : History σ) (name : String) : History σ :=
  { h with marks := h.marks.filter (·.1 ≠ name) ++ [(name, (h.depth : Int) - 1)] }

/-- Whether a name marks a place. -/
def hasMark (h : History σ) (name : String) : Bool := (h.marks.lookup name).isSome

/-- Keeps the first `n` states, and of the marks those with property `p`. When no state is left, the
current state and the marks stay, and the answer is that nothing is left. -/
def keep (h : History σ) (n : Nat) (p : Int → Bool) : Bool × History σ :=
  match h.stack.drop (h.depth - n) with
  | [] => (false, { h with stack := [] })
  | s :: past => (true, ⟨s, s :: past, h.marks.filter (p ·.2)⟩)

/-- Returns to a marked place, if the stack still reaches it. Later marks are lost. The answer is
whether the name marks a place; there is none when nothing is left of the stack. -/
def rollback (h : History σ) (name : String) : Option Bool × History σ :=
  match h.marks.lookup name with
  | none => (some false, h)
  | some n =>
    match h.keep (n + 1).toNat (· ≤ n) with
    | (true, h) => (some true, h)
    | (false, h) => (none, h)

/-- Keeps only the first `n` states; a negative number says how many states to drop instead. The
answer is whether a state is left. -/
def truncate (h : History σ) (n : Int) : Bool × History σ :=
  if n < h.depth then
    h.keep (if n < 0 then h.depth + n else n).toNat (· < n)
  else (true, h)

end History

end RuleProver
