/-!
# Columns

Texts filled up with blanks to the width of a column. A text that is too long is kept whole.
-/

namespace RuleProver.Text

/-- A text followed by blanks up to a width. -/
def padRight (width : Nat) (s : String) : String :=
  s ++ String.ofList (List.replicate (width - s.length) ' ')

/-- A text after blanks up to a width. -/
def padLeft (width : Nat) (s : String) : String :=
  String.ofList (List.replicate (width - s.length) ' ') ++ s

end RuleProver.Text
