import RuleProver.Text.Digit
import RuleProver.Text.Join

/-!
# Decimal numbers

A decimal number is `digits · 10 ^ exponent`. Here are its written forms, and the rounding of exact
fractions on which all decimal text of binary numbers rests: a fraction goes to the nearest whole
number, and one that lies halfway goes to the even neighbour.
-/

namespace RuleProver

/-- The number `digits · 10 ^ exponent`. -/
structure Decimal where
  digits : Nat
  exponent : Int
deriving DecidableEq, Inhabited

/-- A fraction of natural numbers. -/
structure Fraction where
  num : Nat
  den : Nat
deriving DecidableEq, Inhabited

namespace Fraction

/-- `b ^ e` for an exponent of either sign. -/
def pow (b : Nat) (e : Int) : Fraction :=
  if 0 ≤ e then ⟨b.pow e.toNat, 1⟩ else ⟨1, b.pow (-e).toNat⟩

/-- The product of two fractions. -/
def mul (x y : Fraction) : Fraction := ⟨x.num * y.num, x.den * y.den⟩

/-- The nearest whole number; a half goes to the even neighbour. -/
def nearest (x : Fraction) : Nat :=
  let q := x.num / x.den
  let r := x.num % x.den
  if 2 * r < x.den then q
  else if x.den < 2 * r then q + 1
  else q + q % 2

/-- The largest `k` with `10 ^ k ≤ x`, for a positive fraction. -/
def log10 (x : Fraction) : Int :=
  let d : Int := (Text.decimalDigits x.num).length - (Text.decimalDigits x.den).length
  let p := pow 10 d
  if p.num * x.den ≤ x.num * p.den then d else d - 1

/-- Both parts divided by their greatest common divisor. -/
def lowest (x : Fraction) : Fraction :=
  let g := Nat.gcd x.num x.den
  ⟨x.num / g, x.den / g⟩

end Fraction

namespace Decimal

/-- The digits without the zeros at their end. -/
def stripZeros (x : Decimal) : Decimal :=
  if h : x.digits ≠ 0 ∧ x.digits % 10 = 0 then
    stripZeros ⟨x.digits / 10, x.exponent + 1⟩
  else x
termination_by x.digits
decreasing_by omega

/-- The exact value of a decimal number. -/
def toFraction (x : Decimal) : Fraction := Fraction.mul ⟨x.digits, 1⟩ (.pow 10 x.exponent)

/-- Zeros, to fill a number up. -/
def zeros (n : Nat) : List Char := List.replicate n '0'

/-- Digits with a point after the first `whole` of them, for `whole` of either sign. There is a
digit on both sides of the point. -/
def positional (ds : List Char) (whole : Int) : List Char :=
  if whole ≤ 0 then '0' :: '.' :: zeros (-whole).toNat ++ ds
  else if ds.length ≤ whole then ds ++ zeros (whole.toNat - ds.length) ++ ['.', '0']
  else ds.take whole.toNat ++ '.' :: ds.drop whole.toNat

/-- Digits with a point after the first, and no point after a single digit. -/
def pointed : List Char → List Char
  | [] => []
  | [d] => [d]
  | d :: ds => d :: '.' :: ds

/-- An exponent after its mark, with a sign and at least `width` digits. -/
def exponentPart (mark : Char) (width : Nat) (e : Int) : List Char :=
  let ds := Text.decimalDigits e.natAbs
  mark :: (if e < 0 then '-' else '+') :: zeros (width - ds.length) ++ ds

/-- The usual form of a measured number: positional from `0.0001` up to sixteen digits before the
point, and in powers of ten beyond. -/
def literal (x : Decimal) : String :=
  if x.digits = 0 then "0.0"
  else
    let y := x.stripZeros
    let ds := Text.decimalDigits y.digits
    let whole : Int := ds.length + y.exponent
    String.ofList <|
      if -4 < whole ∧ whole ≤ 16 then positional ds whole
      else pointed ds ++ exponentPart 'e' 2 (whole - 1)

/-- The form that keeps every digit given: positional when no zeros have to be added at the end and
at most five stand after the point in front of the digits, and in powers of ten otherwise. -/
def scientific (x : Decimal) : String :=
  let ds := Text.decimalDigits x.digits
  let whole : Int := ds.length + x.exponent
  String.ofList <|
    if x.exponent ≤ 0 ∧ -6 < whole then
      if x.exponent = 0 then ds else positional ds whole
    else pointed ds ++ exponentPart 'E' 1 (whole - 1)

/-- A number of units of `10 ^ -places`, written with that many digits after the point. -/
def fixedUnits (places n : Nat) : String :=
  if places = 0 then Text.decimal n
  else
    let ds := Text.decimalDigits n
    let ds := zeros (places + 1 - ds.length) ++ ds
    String.ofList (ds.take (ds.length - places) ++ '.' :: ds.drop (ds.length - places))

end Decimal

end RuleProver
