import RuleProver.Fault

/-!
# Results

A directive answers with objects, each of which may come with a message. A pair of brackets in a
message refers to the object.
-/

namespace RuleProver

/-- An object that a directive answers with. -/
structure Result where
  object : Object
  message : Option String

namespace Result

/-- An object with a message about it. -/
def about (t : Object) (message : String) : Result := ⟨t, some message⟩

/-- A message that is about no object in particular. -/
def notice (name message : String) : Result := ⟨Expr.const name, some message⟩

/-- A message about something that went wrong. -/
def error (message : String) : Result := notice "Error" message

/-- Changes the object and keeps the message. -/
def map (f : Object → Object) (r : Result) : Result := { r with object := f r.object }

end Result

/-- What a directive answers: whether it succeeded, and its results. -/
structure Answer where
  success : Bool
  results : List Result

namespace Answer

/-- Success with one result. -/
def done (r : Result) : Answer := ⟨true, [r]⟩

/-- Failure with one result. -/
def failed (r : Result) : Answer := ⟨false, [r]⟩

end Answer

/-- A missing symbol is written as the word `None`. -/
def symbolText (s : Option String) : String := s.getD "None"

end RuleProver
