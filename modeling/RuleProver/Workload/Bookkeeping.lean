import RuleProver.Alias
import RuleProver.Functorial
import RuleProver.Workload.Expression

/-!
# Bookkeeping

Workloads on the states behind a session: histories, goals with their context, tables of names and
rules, and imported files.
-/

namespace RuleProver.Workload

/-! ## Histories -/

/-- A history of a number of states after the first; the state after the first step is marked. -/
def markedHistory : Nat → History Nat
  | 0 => .ofState 0
  | 1 => ((History.ofState 0).push 1).mark "first"
  | n + 1 => (markedHistory n).push (n + 1)

/-- Goes forward and back in a history, and calls handlers with the wrong number of arguments. -/
def goingBack (n : Nat) : Value :=
  let h := markedHistory n
  let (found, back) := h.rollback "first"
  let (undone, first) := back.undo
  let few := Fault.tooFewArguments "handle_start" 1 0
  let many := Fault.tooManyArguments "handle_clear" 0 1
  .list [.int h.depth, .bool (found = some true), .null, .int back.depth, .bool undone, .bool first.undo.1,
    .bool ((first.rollback "missing").1 = some true), .bool (first.hasMark "missing"),
    .int (h.truncate 3).2.depth, start 5 few.message, start 5 many.message,
    start 5 "Unexpected number of arguments to handle_start: 1"]

/-! ## Goals -/

/-- A context as a dictionary. -/
def contextValue (Γ : Context Note) : Value :=
  .dict (Γ.map fun (s, ts) => (.text (s.getD ""), .list (ts.map .object)))

/-- What a check says. -/
def checkValue (t : Object) (symbol : Option String) (Γ : Context Note) : Except Fault Value := do
  let (v, _) ← t.checkIn symbol Γ
  return .tuple [.bool v.holds, .text v.message]

/-- A chain as its two forms. -/
def chainValue (c? : Option Chain) : Value :=
  .tuple [ofOption (c?.map (·.reduced)), ofOption (c?.map (·.unreduced))]

/-- Works on a goal among a number of axioms, and on the tables beside it. -/
def goalWork (n : Nat) : Except Fault Value := do
  let a : Object := Expr.const "A"
  let b : Object := Expr.const "B"
  let c : Object := Expr.const "C"
  let bad : Object := Expr.const "bad"
  let statement : Object := Expr.rule a "=>" (Expr.rule b "=>" c)
  let S := (List.range n).foldl
    (fun S i => S.addAxiom (some "=>") (Expr.const ("Ax" ++ Text.decimal i))) GoalState.initial
  let (S, g) ← S.setGoal statement (some "=>")
  let T ← S.update (Expr.rule a "=>" (← Object.goal (some "=>") (Expr.rule b "=>" c)))
  let U ← T.update (Expr.const "done")
  let Γ : Context Note := [(some "=>", [a])]
  let (chain, started) ← Chain.start a
  let (used, _) ← Chain.handleUse (some chain) (Expr.rule a "=>" b)
  let F : Functorials := Functorials.register [] ⟨"=", "plus", 0, "=", statement⟩
  let named : Aliases := (List.range n).foldl
    (fun (A : Aliases) i => A.define ("k" ++ Text.decimal i) (Expr.const ("v" ++ Text.decimal i))) []
  return .list [.object g, ofOption S.goal?, .list (S.goals.map .object), contextValue S.context,
    ofOption T.goal?, contextValue T.context, ofOption U.tree, .object (currifier "=>"),
    ← checkValue a (some "=>") Γ, ← checkValue (Expr.comp a a) (some "=>") Γ, ← checkValue bad none [],
    contextValue (Context.add [] (some "k") (Expr.const "v")), .object started.object,
    .tuple (.bool used.success :: used.results.map (.object ·.object)),
    .tuple [chainValue none, .object Chain.cleared.object],
    match F.get? "=" "plus" 0 with
      | some f => .tuple [.text f.outer, .object f.rule]
      | none => .null,
    ofOption ((F.get? "=" "plus" 1).map (·.rule)),
    ofOption (named.get? "k0"), ofOption (named.get? "missing"), .bool (named.contains "k0"),
    .bool (Aliases.isName a), .bool (Aliases.isName (Expr.term "f" [a]))]

/-! ## Imports -/

/-- The directory of the imported files. -/
def importDirectory : String := "<tmp>"

/-- Files of which each imports the next, two that import each other, and one that cannot be
read. -/
def importFiles (n : Nat) : Files :=
  ((List.range n).map fun i =>
    ("mod" ++ Text.decimal i,
      (if i + 1 < n then "Using mod" ++ Text.decimal (i + 1) ++ "\n" else "")
        ++ "Define sym" ++ Text.decimal i ++ ", val" ++ Text.decimal i ++ "\n"))
    ++ [("cycA", "Using cycB\n"), ("cycB", "Using cycA\n"), ("broken", "Define bad, #\n")]
    |>.map fun (name, text) => (importDirectory ++ "/" ++ name ++ ".end", text)

/-- What a line came to: success and the shown results. -/
def answerValue (a : Except Fault Answer) : Except Fault Value := do
  let a ← a
  return .tuple [.bool a.success, .list ((← a.results.mapM Result.shown).map .text)]

/-- Imports a chain of files, fails to import others, and imports the chain again from the start. -/
def importing (n : Nat) : Except Fault Value := do
  let files := importFiles n
  let lines := ["Using mod0", "Using mod0", "Using cycA", "Using does_not_exist", "Using broken",
    "Reduce sym0"]
  let (P, answers) := lines.foldl
    (fun (P, answers) line =>
      let (P, a) := P.process files line
      (P, answers ++ [answerValue a]))
    (Prover.initial importDirectory, [])
  let again := (Prover.initial importDirectory).process files "Using mod0"
  return .list ((← answers.mapM id) ++ [← answerValue again.2, .int P.imported.length])

end RuleProver.Workload
