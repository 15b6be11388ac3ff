import RuleProver.Result

/-!
# Aliases

An alias is a name for an object. Names are replaced by their objects before a directive is
carried out, and a replaced object remembers its name; in what the directive answers, an object
that is still what its name stood for is shown by its name.
-/

namespace RuleProver

/-- The names that have been given, in the order in which they were given last. -/
abbrev Aliases := List (String × Object)

/-- The same object with the note that it was put in place of a name. -/
def Object.namedBy (name : String) (t : Object) : Object :=
  t.withMark (.mk (some (name, t.erase)) t.mark.goal)

/-- The name that an unchanged expansion can be shown by. -/
def Object.restoredName? (t : Object) : Option String :=
  t.mark.expandedFrom.bind fun (name, form) => if t.same form then some name else none

namespace Aliases

/-- The object that a name stands for. -/
def get? (A : Aliases) (name : String) : Option Object := A.lookup name

/-- Whether a name stands for an object. -/
def contains (A : Aliases) (name : String) : Bool := (A.get? name).isSome

/-- Gives a name to an object. A name that was in use moves to the end. -/
def define (A : Aliases) (name : String) (t : Object) : Aliases :=
  A.filter (·.1 ≠ name) ++ [(name, t)]

mutual

/-- Puts objects in place of their names. -/
def expand (A : Aliases) : Object → Object
  | .hole m x => .hole m x
  | .node m (.term name) [] =>
    match A.get? name with
    | some t => Object.namedBy name t
    | none => .node m (.term name) []
  | .node m h cs => .node m h (expandAll A cs)

/-- Puts objects in place of their names in a list of objects. -/
def expandAll (A : Aliases) : List Object → List Object
  | [] => []
  | c :: cs => expand A c :: expandAll A cs

end

mutual

/-- Shows unchanged expansions by their names again. -/
def restore : Object → Object
  | .hole m x =>
    match Object.restoredName? (.hole m x) with
    | some name => .node (.mk none m.goal) (.term name) []
    | none => .hole m x
  | .node m h cs =>
    match Object.restoredName? (.node m h cs) with
    | some name => .node (.mk none m.goal) (.term name) []
    | none => .node m h (restoreAll cs)

/-- Shows unchanged expansions in a list of objects by their names again. -/
def restoreAll : List Object → List Object
  | [] => []
  | c :: cs => restore c :: restoreAll cs

end

/-- Whether an object can serve as a name: a constant of word characters. -/
def isName : Object → Bool
  | .node _ (.term name) [] => Symbol.isName name
  | _ => false

/-- A leading name among two or more arguments, with the last argument, which it is to stand for,
and the arguments without the name. -/
def leadingName? : List Object → Option (String × Object × List Object)
  | .node m (.term name) [] :: t :: ts =>
    if isName (.node m (.term name) []) then
      some (name, (t :: ts).getLast (List.cons_ne_nil t ts), t :: ts)
    else none
  | _ => none

/-- Carries out `Define name, object`. -/
def handleDefine (A : Aliases) (name t : Object) : Answer × Option Aliases :=
  match name with
  | .node _ (.term n) [] =>
    let message := if A.contains n then "[] defined (redefinition)" else "[] defined"
    (.done (.about name message), some (A.define n t))
  | _ => (.failed (.about name "Name must be a simple term with no arguments"), none)

end Aliases

end RuleProver
