import RuleProver.Object
import RuleProver.Token

/-!
# Directives

A line holds a directive: its name and a list of objects separated by commas. Objects are read by
precedence, from the composition bar, which binds least, over rules with word symbols, rules with
operator symbols, sums, products and quotients to primary expressions. Every operator is right
associative.

    directive   ::= SYMBOL [objects]
    objects     ::= composition (',' composition)*
    composition ::= wordRule ['|' composition]
    wordRule    ::= operatorRule [word wordRule]
    operatorRule ::= sum [operator operatorRule]
    sum         ::= product [('+' | '-') sum]
    product     ::= quotient ['*' product]
    quotient    ::= primary ['/' quotient]
    primary     ::= SYMBOL ['(' objects ')'] | HOLE | '(' composition ')'
-/

namespace RuleProver

/-- A directive with its arguments. -/
structure Directive where
  name : String
  args : List Object

/-- The levels of precedence between compositions and primary expressions. -/
inductive Level where
  | composition
  | wordRule
  | operatorRule
  | sum
  | product
  | quotient
deriving DecidableEq

namespace Level

/-- The level that binds next more tightly, if it is not that of primary expressions. -/
def next? : Level → Option Level
  | .composition => some .wordRule
  | .wordRule => some .operatorRule
  | .operatorRule => some .sum
  | .sum => some .product
  | .product => some .quotient
  | .quotient => none

/-- How many levels bind more tightly. -/
def rank : Level → Nat
  | .composition => 6
  | .wordRule => 5
  | .operatorRule => 4
  | .sum => 3
  | .product => 2
  | .quotient => 1

theorem rank_next_lt {lv lv' : Level} (h : lv.next? = some lv') : lv'.rank < lv.rank := by
  cases lv <;> simp [next?] at h <;> subst h <;> decide

theorem rank_pos (lv : Level) : 0 < lv.rank := by cases lv <;> decide

/-- What a token joins two objects to, if it is an operator of the level. -/
def operator? (lv : Level) (t : Token) : Option (Object → Object → Object) :=
  match lv, t.kind, t.value with
  | .composition, .pipe, _ => some Expr.comp
  | .wordRule, .symbol, s => if Symbol.isOperator s then none else some (Expr.rule · s ·)
  | .operatorRule, .symbol, s => if Symbol.isOperator s then some (Expr.rule · s ·) else none
  | .sum, .arithmetic, "+" => some fun a b => Expr.term "plus" [a, b]
  | .sum, .arithmetic, "-" => some fun a b => Expr.term "minus" [a, b]
  | .product, .arithmetic, "*" => some fun a b => Expr.term "mult" [a, b]
  | .quotient, .arithmetic, "/" => some fun a b => Expr.term "div" [a, b]
  | _, _, _ => none

/-- Whether a token after an operand of a level shows that two expressions stand side by side. -/
def clashes (lv : Level) (t : Token) : Bool :=
  lv = .wordRule ∧ (t.kind = .openParen ∨ t.kind = .hole)

end Level

namespace Directive

/-- What is left of a list of tokens after a part of it has been read. -/
abbrev Rest (ts : List Token) := { rest : List Token // rest.length < ts.length }

/-- The result of reading an `α` at the start of a list of tokens. -/
abbrev Reading (α : Type) (ts : List Token) := Except ParseError (α × Rest ts)

/-- Reads a closing parenthesis. -/
def readClose : (ts : List Token) → Except ParseError (Rest ts)
  | [] => .error (.expected .closeParen none)
  | t :: ts =>
    if t.kind = .closeParen then .ok ⟨ts, Nat.lt_succ_self _⟩
    else .error (.expected .closeParen (some t.kind))

mutual

/-- Reads an object at a level of precedence: an operand of the next level and, if an operator of
the level follows, all that it joins to the right. -/
def readLevel (lv : Level) (ts : List Token) : Reading Object ts := do
  let (left, rest) ←
    match _hlv : lv.next? with
    | some lv' => readLevel lv' ts
    | none => readPrimary ts
  match rest with
  | ⟨[], h⟩ => return (left, ⟨[], h⟩)
  | ⟨t :: more, h⟩ =>
    if lv.clashes t then throw (.adjacent t)
    match lv.operator? t with
    | none => return (left, ⟨t :: more, h⟩)
    | some join =>
      let (right, rest) ← readLevel lv more
      return (join left right, ⟨rest.1, Nat.lt_trans rest.2 (Nat.lt_of_succ_lt h)⟩)
termination_by (ts.length, lv.rank)
decreasing_by
  · exact Prod.Lex.left _ _ (Nat.lt_of_succ_lt h)
  · exact Prod.Lex.right _ (Level.rank_next_lt _hlv)
  · exact Prod.Lex.right _ lv.rank_pos

/-- Reads a term, a hole or an object in parentheses. -/
def readPrimary (ts : List Token) : Reading Object ts :=
  match ts with
  | [] => throw .endOfInput
  | [⟨.symbol, _, _⟩, ⟨.openParen, _, _⟩] => throw (.expected .closeParen none)
  | ⟨.symbol, f, _⟩ :: ⟨.openParen, _, _⟩ :: t :: more => do
    let (args, rest) ← readObjects (t :: more)
    let rest' ← readClose rest.1
    return (Expr.term f args, ⟨rest'.1, by
      have := rest.2; have := rest'.2; simp only [List.length_cons] at *; omega⟩)
  | ⟨.symbol, f, _⟩ :: more => return (Expr.const f, ⟨more, Nat.lt_succ_self _⟩)
  | ⟨.hole, x, _⟩ :: more => return (Expr.var x, ⟨more, Nat.lt_succ_self _⟩)
  | ⟨.openParen, _, _⟩ :: more => do
    let (inner, rest) ← readLevel .composition more
    let rest' ← readClose rest.1
    return (inner, ⟨rest'.1, Nat.lt_succ_of_lt (Nat.lt_trans rest'.2 rest.2)⟩)
  | t :: _ => throw (.unexpected t)
termination_by (ts.length, 0)
decreasing_by
  · exact Prod.Lex.left _ _ (by simp only [List.length_cons]; omega)
  · exact Prod.Lex.left _ _ (Nat.lt_succ_self _)

/-- Reads one object and all that follow after commas. -/
def readObjects (ts : List Token) : Reading (List Object) ts := do
  let (first, rest) ← readLevel .composition ts
  match rest with
  | ⟨⟨.comma, _, _⟩ :: more, h⟩ =>
    let (others, rest) ← readObjects more
    return (first :: others, ⟨rest.1, Nat.lt_trans rest.2 (Nat.lt_of_succ_lt h)⟩)
  | rest => return ([first], rest)
termination_by (ts.length, 7)
decreasing_by
  · exact Prod.Lex.right _ (by decide)
  · exact Prod.Lex.left _ _ (Nat.lt_of_succ_lt h)

end

/-- Reads a list of objects that may be empty when no tokens are left. -/
def readArguments : List Token → Except ParseError (List Object × List Token)
  | [] => .ok ([], [])
  | ts => (readObjects ts).map fun (args, rest) => (args, rest.1)

/-- Reads a directive and returns the tokens after it. -/
def read : List Token → Except ParseError (Directive × List Token)
  | [] => .error .noTokens
  | t :: ts =>
    if t.kind = .symbol then
      (readArguments ts).map fun (args, rest) => (⟨t.value, args⟩, rest)
    else .error (.expected .symbol (some t.kind))

/-- Reads a directive that takes up all tokens. -/
def readAll (ts : List Token) : Except ParseError Directive :=
  match read ts with
  | .error e => .error e
  | .ok (d, []) => .ok d
  | .ok (_, t :: _) => .error (.leftOver t)

/-- Whether a line, without the white space around it, is empty or a comment. -/
def isIdle (line : List Char) : Bool := line.isEmpty || ['/', '/'].isPrefixOf line

/-- Reads a line. An empty line and a comment hold no directive. -/
def parse (line : String) : Except ParseError (Option Directive) :=
  if isIdle (Text.trimChars line.toList) then .ok none
  else (Token.tokenize line).bind fun ts => (readAll ts).map some

end Directive

end RuleProver
