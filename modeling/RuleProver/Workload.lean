import RuleProver.Workload.Bookkeeping

/-!
# Workloads

Pieces of work of adjustable size. Each returns a value that depends on all of its work, so that two
runs can be compared.
-/

namespace RuleProver.Workload

/-- What a workload is about. -/
inductive Kind where
  /-- Reading lines. -/
  | reading
  /-- Backward proofs. -/
  | proofs
  /-- Forward proofs. -/
  | chains
  /-- Rules used at positions. -/
  | positions
  /-- Names and the display of what they stand for. -/
  | names
  /-- Commands to the console. -/
  | commands
  /-- A proof about sums. -/
  | summation
  /-- Reduction. -/
  | reducing
  /-- Printing and reading back. -/
  | displaying
  /-- Numerals in both notations. -/
  | converting
  /-- Operations on large expressions. -/
  | trees
  /-- Imports. -/
  | importing
  /-- Goal trees and registers. -/
  | goals
  /-- Histories. -/
  | goingBack
  /-- A conversation at the prompt. -/
  | conversation

/-- Does a workload of a given size. -/
def run : Kind → Nat → Except Fault Value
  | .reading, n => .ok (reading n)
  | .proofs, n => .ok (proofs n)
  | .chains, n => .ok (chains n)
  | .positions, n => .ok (positions n)
  | .names, n => .ok (names n)
  | .commands, n => .ok (commands n)
  | .summation, n => .ok (summation n)
  | .reducing, n => reducing n
  | .displaying, n => .ok (displaying n)
  | .converting, n => converting n
  | .trees, n => .ok (treeWork n)
  | .importing, n => importing n
  | .goals, n => goalWork n
  | .goingBack, n => .ok (goingBack n)
  | .conversation, n => .ok (conversation n)

end RuleProver.Workload
