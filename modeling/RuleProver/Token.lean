import RuleProver.Symbol
import RuleProver.Text.Digit

/-!
# Tokens

A line is cut into tokens: runs of word characters, holes `#name`, the composition bar, runs of
operator characters, parentheses and commas. White space only separates. Four operators, each
standing alone, are arithmetic; every other run of operator characters is a symbol.
-/

namespace RuleProver

/-- The kinds of tokens. -/
inductive TokenKind where
  | symbol
  | hole
  | pipe
  | arithmetic
  | openParen
  | closeParen
  | comma
deriving DecidableEq

/-- The name of a kind in messages. -/
def TokenKind.label : TokenKind → String
  | .symbol => "SYMBOL"
  | .hole => "HOLE"
  | .pipe => "PIPE"
  | .arithmetic => "OP"
  | .openParen => "LPAREN"
  | .closeParen => "RPAREN"
  | .comma => "COMMA"

/-- A token with its text (a hole without its sign) and the place where it starts in the line. -/
structure Token where
  kind : TokenKind
  value : String
  position : Nat
deriving DecidableEq

/-- A token as messages show it. -/
def Token.description (t : Token) : String :=
  "Token(" ++ t.kind.label ++ ", '" ++ t.value ++ "')"

/-- Why a text cannot be read. -/
inductive ParseError where
  /-- A hole sign without a name after it. -/
  | namelessHole (position : Nat)
  /-- A character that starts no token. -/
  | strayCharacter (c : Char) (position : Nat)
  /-- Two expressions side by side. -/
  | adjacent (token : Token)
  /-- A token of one kind was needed, and another or none was there. -/
  | expected (kind : TokenKind) (got : Option TokenKind)
  /-- An expression was needed at the end of the line. -/
  | endOfInput
  /-- An expression was needed, and this token starts none. -/
  | unexpected (token : Token)
  /-- There is no token at all. -/
  | noTokens
  /-- A directive was read, and this token follows it. -/
  | leftOver (token : Token)
deriving DecidableEq

/-- The wording of an error. -/
def ParseError.message : ParseError → String
  | .namelessHole i =>
    "Invalid hole syntax at position " ++ Text.decimal i ++ ". Use #name for holes."
  | .strayCharacter c i =>
    "Unexpected character '" ++ String.singleton c ++ "' at position " ++ Text.decimal i
  | .adjacent t => "Unexpected token " ++ t.description ++ " after expression"
  | .expected k got =>
    "Expected " ++ k.label ++ ", got " ++ (got.map TokenKind.label).getD "EOF"
  | .endOfInput => "Unexpected end of input"
  | .unexpected t => "Unexpected token " ++ t.description
  | .noTokens => "Empty token list"
  | .leftOver t =>
    "Unexpected token '" ++ t.value ++ "' at position " ++ Text.decimal t.position

namespace Token

open Text RuleProver.Symbol

/-- A run of operator characters is arithmetic when it is one of four single characters. -/
def operatorKind (cs : List Char) : TokenKind :=
  if cs = ['+'] ∨ cs = ['-'] ∨ cs = ['*'] ∨ cs = ['/'] then .arithmetic else .symbol

/-- The kind of a token that is one character by itself. -/
def singleKind? : Char → Option TokenKind
  | '|' => some .pipe
  | '(' => some .openParen
  | ')' => some .closeParen
  | ',' => some .comma
  | _ => none

private theorem length_dropWhile_lt (p : Char → Bool) (c : Char) (cs : List Char) :
    (cs.dropWhile p).length < (c :: cs).length :=
  Nat.lt_succ_of_le (List.dropWhile_sublist p).length_le

/-- Cuts the rest of a line, which starts at place `i`, into tokens. -/
def scan (A : Alphabet) (i : Nat) : List Char → Except ParseError (List Token)
  | [] => .ok []
  | c :: cs =>
    if A.isBlank c then scan A (i + 1) cs
    else if A.isWordChar c then do
      let w := cs.takeWhile A.isWordChar
      let ts ← scan A (i + 1 + w.length) (cs.dropWhile A.isWordChar)
      return ⟨.symbol, String.ofList (c :: w), i⟩ :: ts
    else if c = '#' then
      let w := cs.takeWhile A.isNameChar
      if w.isEmpty then .error (.namelessHole i)
      else do
        let ts ← scan A (i + 1 + w.length) (cs.dropWhile A.isNameChar)
        return ⟨.hole, String.ofList w, i⟩ :: ts
    else if isOperatorChar c then do
      let w := cs.takeWhile isOperatorChar
      let ts ← scan A (i + 1 + w.length) (cs.dropWhile isOperatorChar)
      return ⟨operatorKind (c :: w), String.ofList (c :: w), i⟩ :: ts
    else
      match singleKind? c with
      | some k => do
        let ts ← scan A (i + 1) cs
        return ⟨k, String.singleton c, i⟩ :: ts
      | none => .error (.strayCharacter c i)
termination_by cs => cs.length
decreasing_by all_goals first | exact length_dropWhile_lt _ _ _ | simp

/-- Cuts a line into tokens, by the characters of an alphabet. White space around the line is
dropped first, and places count from what is left. -/
def tokenizeIn (A : Alphabet) (line : String) : Except ParseError (List Token) :=
  scan A 0 (trimBoth A.isBlank line.toList)

/-- Cuts a line into tokens. -/
def tokenize (line : String) : Except ParseError (List Token) := tokenizeIn .unicode line

end Token

end RuleProver
