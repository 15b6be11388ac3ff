import RuleProver.Directive
import RuleProver.Fault
import RuleProver.Numeral
import RuleProver.Value
import RuleProver.Workload.Replay

/-!
# Work on expressions

Workloads that read, display, compose, reduce and convert expressions without a session around them.
-/

namespace RuleProver.Workload

/-! ## Reading -/

/-- Lines that can be read, of every form. -/
def readableLines : List String :=
  ["Define prec1, A -> B gives A -> B", "Define prec2, A -> B | B -> C",
    "Define math1, a -> (a + b) * c + d", "Define group1, A -> (A -> C) -> (A | A -> C)",
    "Define hole, #x", "Define mixed1, A => B -> C", "Define nested, ((A -> B) -> D) -> D",
    "Define func, f(a, b, c)", "Define comp_assoc, #A | #B | #C", "Define fancy, A <-=-> B",
    "// a comment", "", "Goal (A => B) => ((B => C) => (A => C))",
    "Reduce fancy gives fancy | weird", "Axiom ->, pi", "Use a = 42, 0, 0, 0, 0, 0",
    "Functorial =, plus, 0, =, (#x = #y) => (#x + #c = #y + #c)"]

/-- Lines that cannot be read. -/
def unreadableLines : List String :=
  ["Define #", "Define a ; b", "Reduce (a", "Reduce f(a, b", "Reduce a |", "Reduce )", "Reduce a b)"]

/-- The start of a text. -/
def start (n : Nat) (s : String) : Value := .text (String.ofList (s.toList.take n))

/-- The directive of a line with the number of its arguments, or the start of an error text. -/
def readValue (line : String) : Value :=
  match Directive.parse line with
  | .ok none => .tuple [.null, .int 0]
  | .ok (some d) => .tuple [.text d.name, .int d.args.length]
  | .error e => start 10 (Fault.unreadable e).message

/-- Reads a number of lines, and then lines that cannot be read. -/
def reading (n : Nat) : Value :=
  .list ((cycle n readableLines ++ unreadableLines).map readValue)

/-! ## Displaying -/

/-- Expressions of all precedences. -/
def displayedTexts : List String :=
  ["(a + b) * c - d / e", "A => B -> C gives D", "f(g(x, y), h(z)) | p -> q",
    "(#a | #b) -> (#b | #a)", "and(p, or(q, not(r)))", "A -> B | B -> C | C -> D",
    "a + b + c + d * e * f", "naturals", "integers", "reals"]

/-- A text with words in place of the signs of logic. -/
def withWords (s : String) : String :=
  String.ofList <| s.toList.flatMap fun c =>
    if c = '∧' then "and".toList
    else if c = '∨' then "or".toList
    else if c = '¬' then "not".toList
    else [c]

/-- The only argument of a directive whose argument is written as given. -/
def read? (s : String) : Option Object :=
  match Directive.parse ("Reduce " ++ s) with
  | .ok (some ⟨_, [t]⟩) => some t
  | _ => none

/-- How an expression is displayed, and how what was displayed is read and displayed again. -/
def redisplayed (s : String) : List Value :=
  match read? s with
  | none => [.null]
  | some t =>
    let shown := Object.display 0 t
    [.text shown, match read? (withWords shown) with
      | some u => .text (Object.display 0 u)
      | none => .null]

/-- Displays a number of expressions, and then some in places of every precedence. -/
def displaying (n : Nat) : Value :=
  let a : Object := Expr.const "a"
  let b : Object := Expr.const "b"
  let c : Object := Expr.const "c"
  let d : Object := Expr.const "d"
  let unknown : Object := .node default (.other "Unknown" (some "?")) []
  let words : Object := Expr.rule (Expr.comp a b) "gives" (Expr.comp c d)
  let sum : Object := Expr.term "plus" [a, Expr.term "plus" [b, c]]
  let tight := Precedence.application
  .list ((cycle n displayedTexts).flatMap redisplayed
    ++ [.text (Object.display 0 unknown), .text (Object.text unknown),
      .text (Object.display 0 words), .text (Object.display tight words),
      .text (Object.display 0 sum), .text (Object.display tight sum),
      .int (Object.precedence false (Expr.var "x")), .bool (Object.isInfix sum),
      .bool (Object.needsParens sum tight .left), .bool (Symbol.isWord "gives")])

/-! ## Reducing -/

/-- The constant at a place in a chain of rules. -/
def link (i : Nat) : Object := Expr.const ("T" ++ Text.decimal i)

/-- The rules of a chain, each from one constant to the next. -/
def chainRules (n : Nat) : List Object :=
  (List.range n).map fun i => Expr.rule (link i) "->" (link (i + 1))

/-- Compositions nested to the right. -/
def composedRight (t : Object) : List Object → Object
  | [] => t
  | r :: rs => Expr.comp t (composedRight r rs)

/-- An object that may be missing. -/
def ofOption (t? : Option Object) : Value := (t?.map Value.object).getD .null

/-- An assignment as a dictionary, if there is one. -/
def ofAssignment (σ? : Option (Assignment Note)) : Value :=
  match σ? with
  | some σ => .dict (σ.map fun (x, t) => (.text x, .object t))
  | none => .null

/-- Reduces a chain of rules in each way of nesting it, and matches, composes and renames beside. -/
def reducing (n : Nat) : Except Fault Value := do
  let rules := chainRules n
  let all ← (rules.foldl Expr.comp (link 0)).reduce
  let composed ← (rules.foldl Expr.comp ((link 0).identity "->")).reduce
  let nested ← (composedRight (link 0) rules).reduce
  let f : Object := Expr.rule (Expr.var "x") "=>" (Expr.term "f" [Expr.var "x"])
  return .list [.object all, .object composed,
    ofOption ((rules.head?).bind fun r => (link 0).compose r), .object nested,
    ofOption (f.composeRules f), ofAssignment ((Expr.var "h").unifier? (link 0)),
    ofAssignment ((link 0).unifier? (Expr.const "other")),
    ofAssignment ((link 0).matchPattern (Expr.var "a")),
    .object (f.rename (renameBy [("x", "y")])), .set false (f.holeNames.map .text)]

/-! ## Numerals -/

/-- Converts the first numbers to successors and back. -/
def converting (n : Nat) : Except Fault Value := do
  let numbers := (List.range n).map fun i => (Expr.const (Text.decimal i) : Object)
  let successors ← numbers.mapM fun t => t.toSuccessors
  let back ← successors.mapM fun t => do
    let u := t.toDecimals
    return [Value.object u, ((← u.integer?).map fun k => Value.int k).getD .null]
  let broken : Object := Expr.term "S" [Expr.const "notzero"]
  return .list (successors.map .object ++ back.flatten
    ++ [.object (Expr.term "f" (successors.take 5)), .object broken.toDecimals,
      match broken.successorDepth? with
        | some k => .tuple [.int k, .bool true]
        | none => .tuple [.int 0, .bool false],
      .int (((Expr.successors n : Object).successorDepth?).getD 0),
      ((← broken.integer?).map fun k => Value.int k).getD .null])

/-! ## Trees -/

/-- A tree of a given depth that leans to the left, over a hole. -/
def leaningTree : Nat → Object
  | 0 => Expr.var "h0"
  | n + 1 =>
    Expr.term ("n" ++ Text.decimal (n + 1))
      [leaningTree n, Expr.const ("leaf" ++ Text.decimal (n + 1))]

/-- The side of an object, or the start of what is said when it has none. -/
def sideValue (side : Side) (t? : Option Object) : Value :=
  match t? with
  | some t => .object t
  | none => start 5 (Fault.noSide side).message

/-- Compares, takes apart, fills and renames a tree. -/
def treeWork (n : Nat) : Value :=
  let t := leaningTree n
  let rule := t.identity "=>"
  let x : Object := Expr.var "x"
  let handle (u : Object) : Value := (u.handle.map Value.text).getD .null
  .list ([.bool (t.same (leaningTree n)), .bool (t.same rule), .object rule,
      .object (Expr.comp t rule), .object x, .set false (x.holeNames.map .text),
      .dict [(.text "tag", .text "v")], handle t, handle t, handle rule]
    ++ (List.range (n + 2)).map (fun i => ofOption (rule.at? (List.replicate (i + 1) 0)))
    ++ [handle rule, sideValue .left x.left?, sideValue .right x.right?,
      .object (t.fill [("h0", Expr.const "filled")]), ofAssignment (t.unifier? t),
      ofAssignment (t.unifier? (Expr.var "X")), ofAssignment (t.matchPattern t),
      .set false (t.holeNames.map .text), .object (rule.rename (renameBy [("h0", "hX")]))])

end RuleProver.Workload
