import RuleProver.Text.Alphanumeric
import RuleProver.Text.Blank

/-!
# Alphabets

Which characters are white space, and which are letters and numbers, is settled by tables. Reading
a line needs to know little of them: no character is both, and the punctuation marks of ASCII are
neither. An `Alphabet` is any two classes of which this is known, and `Alphabet.unicode` is the one
that is used.
-/

namespace RuleProver

namespace Text

/-- The code points of the punctuation marks of ASCII, as inclusive ranges. -/
def punctuationRanges : List (Nat × Nat) :=
  [(0x21, 0x2F), (0x3A, 0x40), (0x5B, 0x60), (0x7B, 0x7E)]

/-- A punctuation mark of ASCII. -/
def isPunctuation (c : Char) : Bool := inRanges punctuationRanges c.toNat

end Text

/-- Classes of characters. -/
structure Alphabet where
  /-- White space. -/
  isBlank : Char → Bool
  /-- Letters and numbers. -/
  isAlphanumeric : Char → Bool
  /-- No character is both. -/
  isAlphanumeric_of_isBlank : ∀ c, isBlank c = true → isAlphanumeric c = false
  /-- Punctuation marks are neither. -/
  isBlank_of_isPunctuation : ∀ c, Text.isPunctuation c = true → isBlank c = false
  isAlphanumeric_of_isPunctuation : ∀ c, Text.isPunctuation c = true → isAlphanumeric c = false

namespace Alphabet

/-- The white space, letters and numbers of Unicode. -/
def unicode : Alphabet where
  isBlank := Text.isBlank
  isAlphanumeric := Text.isAlphanumeric
  isAlphanumeric_of_isBlank _ := Text.inRanges_eq_false (by decide +kernel)
  isBlank_of_isPunctuation _ := Text.inRanges_eq_false (by decide +kernel)
  isAlphanumeric_of_isPunctuation _ := Text.inRanges_eq_false (by decide +kernel)

variable {A : Alphabet} {c : Char}

/-- A character that a hole name may hold. -/
def isNameChar (A : Alphabet) (c : Char) : Bool := A.isAlphanumeric c || c == '_'

/-- A character of a word symbol. -/
def isWordChar (A : Alphabet) (c : Char) : Bool := A.isNameChar c || c == '.'

theorem isWordChar_of_isNameChar (h : A.isNameChar c = true) : A.isWordChar c = true := by
  rw [isWordChar, h, Bool.true_or]

/-- Of the punctuation marks, names hold the underscore, and word symbols the full stop as well. -/
theorem isWordChar_of_isPunctuation (h : Text.isPunctuation c = true) (hunderscore : c ≠ '_')
    (hstop : c ≠ '.') : A.isWordChar c = false := by
  simp [isWordChar, isNameChar, A.isAlphanumeric_of_isPunctuation c h, hunderscore, hstop]

theorem isBlank_of_isWordChar (h : A.isWordChar c = true) : A.isBlank c = false := by
  cases hblank : A.isBlank c with
  | false => rfl
  | true =>
    have hsigns : c = '_' ∨ c = '.' := by
      simpa [isWordChar, isNameChar, A.isAlphanumeric_of_isBlank c hblank] using h
    have hmark : Text.isPunctuation c = true := by
      rcases hsigns with rfl | rfl <;> decide
    rw [A.isBlank_of_isPunctuation c hmark] at hblank
    cases hblank

end Alphabet

end RuleProver
