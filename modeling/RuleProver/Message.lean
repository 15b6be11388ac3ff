import RuleProver.Result
import RuleProver.Text.Blank
import RuleProver.Text.Digit

/-!
# Messages

A message can refer to the object that it comes with: `[]` stands for the object, and a path of
child indices such as `[0.2]` for a part of it. References are replaced by what they refer to in
displayed form. Brackets around anything else stay.
-/

namespace RuleProver.Message

open Text

/-- The path written between the brackets of a reference: indices divided by dots, or nothing. -/
def readPath? (body : List Char) : Option (List Nat) :=
  if body.isEmpty then some []
  else (splitWhere (· == '.') body).mapM fun ds => if ds.isEmpty then none else readDigits 0 ds

/-- Reads a reference after its opening bracket. Returns what stands between the brackets, the
path that it means, and the text after the closing bracket. -/
def readReference? (cs : List Char) : Option (List Char × List Nat × List Char) :=
  match cs.dropWhile (· != ']') with
  | [] => none
  | _ :: rest =>
    let body := cs.takeWhile (· != ']')
    (readPath? body).map fun path => (body, path, rest)

private theorem length_lt_of_readReference? {cs body rest : List Char} {path : List Nat}
    (h : readReference? cs = some (body, path, rest)) : rest.length < cs.length := by
  have hle := (List.dropWhile_sublist (l := cs) (· != ']')).length_le
  unfold readReference? at h
  split at h
  · simp at h
  · next heq =>
    rw [heq] at hle
    simp only [Option.map_eq_some_iff, Prod.mk.injEq] at h
    obtain ⟨_, _, _, _, rfl⟩ := h
    exact hle

/-- What a reference is replaced by. -/
def part (t : Object) (body : List Char) (path : List Nat) : Except Fault String :=
  match t.at? path with
  | some u => .ok (Object.display 0 u)
  | none => .error (.noPart (String.ofList body) (Object.text t))

/-- Replaces the references of a text. -/
def fill (t : Object) (cs : List Char) : Except Fault String :=
  match cs with
  | [] => .ok ""
  | c :: cs =>
    match _h : if c = '[' then readReference? cs else none with
    | some (body, path, rest) => do
      let shown ← part t body path
      return shown ++ (← fill t rest)
    | none => do return String.singleton c ++ (← fill t cs)
termination_by cs.length
decreasing_by
  · have hr : readReference? cs = some (body, path, rest) := by
      split at _h
      · exact _h
      · simp at _h
    exact Nat.lt_succ_of_lt (length_lt_of_readReference? hr)
  · exact Nat.lt_succ_self _

/-- A message about an object with its references replaced. -/
def interpolate (t : Object) (message : String) : Except Fault String := fill t message.toList

end RuleProver.Message

namespace RuleProver.Result

/-- What is shown for a result: its message, or the object when there is none. -/
def shown (r : Result) : Except Fault String :=
  match r.message with
  | some message => Message.interpolate r.object message
  | none => .ok (Object.display 0 r.object)

end RuleProver.Result
