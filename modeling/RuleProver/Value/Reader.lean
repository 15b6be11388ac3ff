import RuleProver.Text.Blank
import RuleProver.Value

/-!
# Reading values

Numbers, dates and identifiers from their text.
-/

namespace RuleProver.Value

/-- A sign in front of a text, and the text after it. -/
def splitSign : List Char → Bool × List Char
  | '-' :: cs => (true, cs)
  | '+' :: cs => (false, cs)
  | cs => (false, cs)

/-- A whole number with a sign. -/
def readInt? (cs : List Char) : Option Int :=
  let (negative, ds) := splitSign cs
  (Text.readNat? (String.ofList ds)).map fun n => if negative then -(n : Int) else n

/-- Digits with or without a point in them, and an exponent after `e`. -/
def readUnsigned? (cs : List Char) : Option Decimal := do
  let isMark (c : Char) : Bool := c == 'e' || c == 'E'
  let mantissa := cs.takeWhile (!isMark ·)
  let exponent ← match cs.dropWhile (!isMark ·) with
    | [] => some 0
    | _ :: es => readInt? es
  let whole := mantissa.takeWhile (· != '.')
  let places := (mantissa.dropWhile (· != '.')).drop 1
  let digits ← Text.readNat? (String.ofList (whole ++ places))
  return ⟨digits, exponent - places.length⟩

/-- A decimal number with a sign. -/
def readSigned? (s : String) : Option (Bool × Decimal) :=
  let (negative, cs) := splitSign (Text.trimChars s.toList)
  (readUnsigned? cs).map fun x => (negative, x)

/-- A binary number from its decimal text. -/
def readFloat? (s : String) : Option Value :=
  let (negative, cs) := splitSign (Text.trimChars s.toList)
  let word := String.ofList (cs.map Char.toLower)
  let size :=
    if word = "inf" ∨ word = "infinity" then some (1.0 / 0.0)
    else if word = "nan" then some (0.0 / 0.0)
    else (readUnsigned? cs).map (Decimal.toFloat false)
  size.map fun x => .float (if negative then -x else x)

/-- A decimal number that keeps its digits. -/
def readDecimal? (s : String) : Option Value := (readSigned? s).map fun (n, x) => .decimal n x

/-- A fraction in lowest terms, from a quotient of whole numbers or from a decimal number. -/
def readFraction? (s : String) : Option Value := do
  let cs := Text.trimChars s.toList
  let (negative, x) ← match cs.dropWhile (· != '/') with
    | _ :: ds => do
      let (negative, ns) := splitSign (cs.takeWhile (· != '/'))
      let num ← Text.readNat? (Text.trim (String.ofList ns))
      let den ← Text.readNat? (Text.trim (String.ofList ds))
      pure (negative, (⟨num, den⟩ : Fraction))
    | [] => (readSigned? s).map fun (n, x) => (n, x.toFraction)
  return .fraction (negative && x.num ≠ 0) x.lowest

/-- A date from its year, month and day, divided by hyphens. -/
def readDate? (s : String) : Option Value := do
  match Text.splitWhere (· == '-') s.toList with
  | [y, m, d] =>
    return .date (← Text.readNat? (String.ofList y)) (← Text.readNat? (String.ofList m))
      (← Text.readNat? (String.ofList d))
  | _ => none

/-- A unique identifier from its digits, with or without hyphens between them. -/
def ofUuid (s : String) : Value :=
  .uuid (String.ofList ((s.toList.filter (· != '-')).map Char.toLower))

/-- The value of a hexadecimal digit. -/
def hexDigit? (c : Char) : Option Nat :=
  if c.isDigit then some (c.toNat - '0'.toNat)
  else if 'a' ≤ c.toLower ∧ c.toLower ≤ 'f' then some (c.toLower.toNat - 'a'.toNat + 10)
  else none

/-- Bytes from pairs of hexadecimal digits. -/
def readBytes? : List Char → Option (List UInt8)
  | [] => some []
  | c :: d :: cs => do
    return (16 * (← hexDigit? c) + (← hexDigit? d)).toUInt8 :: (← readBytes? cs)
  | [_] => none

end RuleProver.Value
