import RuleProver.Text.Blank
import RuleProver.Text.Join

/-!
# Paths

Paths are texts whose parts are divided by slashes. They are resolved by their form alone: empty
parts and single dots are dropped, a double dot takes the part before it away, and a path that
starts with a slash starts from the root.
-/

namespace RuleProver.Path

/-- The parts of a path. -/
def parts (path : String) : List String :=
  (Text.splitWhere (· == '/') path.toList).map String.ofList

/-- The parts of a path, joined by slashes, are the path. -/
theorem join_parts (path : String) : Text.join "/" (parts path) = path := by
  suffices h : ∀ cs : List Char,
      Text.join "/" ((Text.splitWhere (· == '/') cs).map String.ofList) = String.ofList cs by
    rw [parts, h, String.ofList_toList]
  intro cs
  induction cs with
  | nil => rfl
  | cons c cs ih =>
    obtain ⟨w, ws, hcs⟩ := List.exists_cons_of_ne_nil (Text.splitWhere_ne_nil (· == '/') cs)
    rw [hcs] at ih
    by_cases hc : c = '/'
    · rw [hc, Text.splitWhere_cons_of_pos (by rfl), hcs, String.ofList_cons, ← ih]
      rfl
    · rw [Text.splitWhere_cons_of_neg (by simpa using hc) hcs, String.ofList_cons, ← ih]
      cases ws with
      | nil => exact String.ofList_cons
      | cons v vs =>
        simp only [List.map_cons, Text.join, String.ofList_cons, String.append_assoc]

theorem parts_append (dir name : String) :
    parts (dir ++ "/" ++ name) = parts dir ++ parts name := by
  have hchars : (dir ++ "/" ++ name).toList = dir.toList ++ '/' :: name.toList := by simp
  rw [parts, hchars, Text.splitWhere_append_cons (by rfl), List.map_append]
  rfl

theorem parts_of_not_mem {name : String} (h : '/' ∉ name.toList) : parts name = [name] := by
  have hall : ∀ c ∈ name.toList, (c == '/') = false := fun c hc =>
    beq_eq_false_iff_ne.mpr fun heq => h (heq ▸ hc)
  rw [parts, Text.splitWhere_eq_singleton hall, List.map_singleton, String.ofList_toList]

/-- Follows parts from the parts of a directory, given last part first. -/
def follow : List String → List String → List String
  | dir, [] => dir
  | dir, p :: ps =>
    if p = "" ∨ p = "." then follow dir ps
    else if p = ".." then follow (if dir.length ≤ 1 then dir else dir.tail) ps
    else follow (p :: dir) ps

/-- The path that `path` names when read in the directory `dir`. -/
def resolve (dir path : String) : String :=
  let start := if path.toList.head? = some '/' then [""] else (parts dir).reverse
  Text.join "/" (follow start (parts path)).reverse

/-- A single part that is no dots names the file of this name in the directory. -/
theorem resolve_of_not_mem {dir name : String} (h : '/' ∉ name.toList) (hempty : name ≠ "")
    (hdot : name ≠ ".") (hdots : name ≠ "..") : resolve dir name = dir ++ "/" ++ name := by
  have hhead : name.toList.head? ≠ some '/' := fun hhead => h (List.mem_of_mem_head? hhead)
  have hfollow : follow (parts dir).reverse [name] = name :: (parts dir).reverse := by
    rw [follow, if_neg (not_or.mpr ⟨hempty, hdot⟩), if_neg hdots, follow]
  rw [resolve, if_neg hhead, parts_of_not_mem h]
  rw [hfollow, List.reverse_cons, List.reverse_reverse, ← parts_of_not_mem h, ← parts_append,
    join_parts]

/-- The directory that a path lies in. -/
def parent (path : String) : String := Text.join "/" (parts path).dropLast

/-- The last part of a path. -/
def fileName (path : String) : String := (parts path).getLast?.getD ""

end RuleProver.Path
