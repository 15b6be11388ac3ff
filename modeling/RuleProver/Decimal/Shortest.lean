import RuleProver.Decimal

/-!
# Decimal text of binary numbers

A finite binary number is exactly `± significand · 2 ^ exponent`. From that value come all its
decimal forms: the fewest digits that read back as the same number, a given number of places, and a
given number of significant digits, each rounded once from the exact value.
-/

namespace RuleProver

/-- The exact value `± significand · 2 ^ exponent` of a finite binary number. -/
structure Binary where
  negative : Bool
  significand : Nat
  exponent : Int
deriving DecidableEq, Inhabited

namespace Binary

/-- The least exponent of a binary number. -/
def minExponent : Int := -1074

/-- The significand of the smallest binary number with a given exponent, if that is not the
least exponent. -/
def leastNormal : Nat := 1 <<< 52

/-- The exact value of a finite number. -/
def ofFloat? (x : Float) : Option Binary :=
  let bits := x.toBits.toNat
  let negative := bits.testBit 63
  let field : Nat := (bits >>> 52) % 2048
  let fraction : Nat := bits % leastNormal
  if field = 2047 then none
  else if field = 0 then some ⟨negative, fraction, minExponent⟩
  else some ⟨negative, fraction + leastNormal, field + minExponent - 1⟩

/-- The size of the number. -/
def magnitude (b : Binary) : Fraction := Fraction.mul ⟨b.significand, 1⟩ (.pow 2 b.exponent)

/-- How far the numbers that round to `b` reach: the value and both ends, in quarters of a unit of
its last place. The lower end is nearer where the exponent changes. -/
def reach (b : Binary) : Nat × Nat × Nat :=
  let m := 4 * b.significand
  (if b.significand = leastNormal ∧ b.exponent ≠ minExponent then m - 1 else m - 2, m, m + 2)

/-- A decimal number of `n` digits that reads back as `b`, if there is one: the nearer of the two
neighbours of `b` among those numbers, or of two equally near ones the even one. -/
def withDigits? (b : Binary) (n : Nat) : Option Decimal :=
  let k := b.magnitude.log10 - n + 1
  let unit := Fraction.pow 10 k
  let quarter := Fraction.pow 2 (b.exponent - 2)
  let onGrid (a : Nat) : Nat := a * unit.num * quarter.den
  let measure (x : Nat) : Nat := x * quarter.num * unit.den
  let (low, mid, high) := b.reach
  let readsBack (a : Nat) : Bool :=
    if b.significand % 2 = 0 then measure low ≤ onGrid a ∧ onGrid a ≤ measure high
    else measure low < onGrid a ∧ onGrid a < measure high
  let a := measure mid / onGrid 1
  let below := measure mid - onGrid a
  let above := onGrid (a + 1) - measure mid
  let chosen :=
    if readsBack a && readsBack (a + 1) then
      if below < above then some a
      else if above < below then some (a + 1)
      else some (a + a % 2)
    else if readsBack a then some a
    else if readsBack (a + 1) then some (a + 1)
    else none
  chosen.map fun d => ⟨d, k⟩

/-- The fewest digits that read back as `b`. Seventeen always do. -/
def shortest (b : Binary) : Decimal :=
  if b.significand = 0 then ⟨0, 0⟩
  else (((List.range 17).findSome? fun n => b.withDigits? (n + 1)).getD ⟨0, 0⟩).stripZeros

/-- The number in units of `10 ^ -places`, rounded. -/
def units (b : Binary) (places : Nat) : Nat := (Fraction.mul b.magnitude ⟨Nat.pow 10 places, 1⟩).nearest

/-- The number rounded to `n` significant digits. -/
def significant (b : Binary) (n : Nat) : Decimal :=
  if b.significand = 0 then ⟨0, 0⟩
  else
    let k := b.magnitude.log10 - n + 1
    ⟨(Fraction.mul b.magnitude (.pow 10 (-k))).nearest, k⟩

end Binary

namespace Decimal

/-- The binary number nearest to a decimal number with a sign. -/
def toFloat (negative : Bool) (x : Decimal) : Float :=
  let size := Float.ofScientific x.digits (x.exponent < 0) x.exponent.natAbs
  if negative then -size else size

/-- The text of a number that is not finite. -/
def infinite (x : Float) : String := if x.isNaN then "nan" else if x < 0 then "-inf" else "inf"

/-- A text after a minus sign when asked for. -/
def signed (negative : Bool) (s : String) : String := if negative then "-" ++ s else s

/-- A binary number in the fewest digits that read back. -/
def ofFloat (x : Float) : String :=
  match Binary.ofFloat? x with
  | some b => signed b.negative b.shortest.literal
  | none => infinite x

/-- A binary number with `places` digits after the point. -/
def fixed (places : Nat) (x : Float) : String :=
  match Binary.ofFloat? x with
  | some b => signed b.negative (fixedUnits places (b.units places))
  | none => infinite x

/-- A binary number rounded to `places` digits after the point. -/
def roundTo (places : Nat) (x : Float) : Float :=
  match Binary.ofFloat? x with
  | some b => toFloat b.negative ⟨b.units places, -(places : Int)⟩
  | none => x

/-- A binary number rounded to `n` significant digits. Zero has no sign. -/
def roundSignificant (n : Nat) (x : Float) : Float :=
  match Binary.ofFloat? x with
  | some b => toFloat b.negative (b.significant n) + 0.0
  | none => x

end Decimal

end RuleProver
