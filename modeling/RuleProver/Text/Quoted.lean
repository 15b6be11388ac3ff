import RuleProver.Text.Join
import RuleProver.Text.Printable

/-!
# Quoted texts

A quoted text stands between single quotes, or between double quotes when it holds a single quote
and no double quote. The quote itself, the backslash and characters that cannot be printed are
escaped.
-/

namespace RuleProver.Text

/-- A number in hexadecimal notation, with zeros in front up to a width. -/
def hexadecimal (width n : Nat) : List Char :=
  let digits := Nat.toDigits 16 n
  List.replicate (width - digits.length) '0' ++ digits

/-- The escaped form of a character between two quotes. -/
def escape (quote c : Char) : List Char :=
  if c = quote ∨ c = '\\' then ['\\', c]
  else if c = '\t' then ['\\', 't']
  else if c = '\n' then ['\\', 'n']
  else if c = '\r' then ['\\', 'r']
  else if isPrintable c then [c]
  else if c.toNat ≤ 0xFF then ['\\', 'x'] ++ hexadecimal 2 c.toNat
  else if c.toNat ≤ 0xFFFF then ['\\', 'u'] ++ hexadecimal 4 c.toNat
  else ['\\', 'U'] ++ hexadecimal 8 c.toNat

/-- The quote that a text stands between. -/
def quoteFor (cs : List Char) : Char :=
  if cs.contains '\'' && !cs.contains '"' then '"' else '\''

/-- A text between quotes. -/
def quoted (s : String) : String :=
  let q := quoteFor s.toList
  String.ofList (q :: s.toList.flatMap (escape q) ++ [q])

/-- A list of quoted texts in brackets. -/
def quotedList (ts : List String) : String := "[" ++ join ", " (ts.map quoted) ++ "]"

end RuleProver.Text
