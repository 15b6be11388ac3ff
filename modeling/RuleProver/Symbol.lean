import RuleProver.Text.Alphabet

/-!
# Symbols

A name or a symbol is one run of characters: either *word characters* (letters, numbers, the
underscore and the full stop) or *operator characters*. Reader and printer classify the symbol of
a rule, because rules with word symbols bind less tightly than rules with operator symbols.
-/

namespace RuleProver.Symbol

open Text

/-- The characters that make up operator symbols. -/
def operatorChars : List Char :=
  ['=', '>', '<', '-', '+', '*', '/', '!', '@', '$', '%', '^', '&', '~', ':', '`', '\\']

/-- A character of an operator symbol. -/
def isOperatorChar (c : Char) : Bool := operatorChars.contains c

/-- An operator character is a punctuation mark that stands in no word and starts no hole. -/
theorem isPunctuation_of_isOperatorChar {c : Char} (h : isOperatorChar c = true) :
    isPunctuation c = true ∧ c ≠ '_' ∧ c ≠ '.' ∧ c ≠ '#' := by
  have hall : operatorChars.all (fun c => isPunctuation c && c != '_' && c != '.' && c != '#') =
      true := by
    decide
  simpa [and_assoc] using List.all_eq_true.mp hall c (List.contains_iff_mem.mp h)

/-- A name that may be given to an expression: word characters only. -/
def isName (s : String) : Bool := s.toList.all Alphabet.unicode.isWordChar

/-- How the printer sees a symbol: a word symbol has letters or numbers once underscores and full
stops are left out, and nothing else. -/
def isWord (s : String) : Bool :=
  let cs := s.toList.filter fun c => c != '_' && c != '.'
  !cs.isEmpty && cs.all isAlphanumeric

/-- How the reader sees a symbol: an operator symbol is not empty and has no character that a
hole name may hold. -/
def isOperator (s : String) : Bool := !s.toList.isEmpty && !s.toList.any Alphabet.unicode.isNameChar

end RuleProver.Symbol
