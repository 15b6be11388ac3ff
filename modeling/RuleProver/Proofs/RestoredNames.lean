import Mathlib.Data.List.Induction
import RuleProver.Proofs.GroundReduction
import RuleProver.Proofs.ShownNames

/-!
# Names that are replaced and restored

Replacing the names in an object puts their meanings in place of them, each with a note of the name
at its root. A meaning may have notes of other names inside, from the time when it was given its
name, and it may have one at its root, when a name was given to a name. The new note takes the place
of that one, and restoring stops where it finds it. So the notes inside a meaning are never looked
at, and what is restored is the object as it was.

## Main definitions

* `Aliases.given` — the names that stand for something after names have been given

## Main results

* `Aliases.get?_given` — a name stands for what it was given to last
* `Aliases.at?_expand` — what stands at a place once the names are replaced
* `Aliases.restore_namedBy` — a meaning is shown by the name that it was put in place of
* `Aliases.restore_expand_same` — names that are replaced and restored
-/

namespace RuleProver

namespace Aliases

variable {A : Aliases} {o c : Object}

/-! ## Giving names -/

/-- The names that stand for something after names have been given, one after the other. -/
def given (ds : List (String × Object)) : Aliases :=
  ds.foldl (fun A d => A.define d.1 d.2) []

theorem given_append (ds : List (String × Object)) (d : String × Object) :
    given (ds ++ [d]) = (given ds).define d.1 d.2 :=
  List.foldl_append

/-- A name stands for what it was given to last. -/
theorem get?_given (ds : List (String × Object)) (x : String) :
    (given ds).get? x = ds.reverse.lookup x := by
  induction ds using List.reverseRecOn with
  | nil => rfl
  | append_singleton ds d ih =>
    rw [given_append, get?_define, List.reverse_append, List.reverse_singleton,
      List.singleton_append, List.lookup_cons, ih]
    by_cases hx : x = d.1
    · simp [hx]
    · have hne : (x == d.1) = false := by simpa using hx
      simp [hx, hne]

/-! ## Replacing names -/

/-- Replacing names leaves all places above the names where they are. -/
theorem at?_expand {path : List Nat} (h : o.at? path = some c) :
    (A.expand o).at? path = some (A.expand c) := by
  induction path generalizing o with
  | nil =>
    obtain rfl : o = c := Option.some.inj h
    rfl
  | cons i path ih =>
    cases o with
    | hole m x =>
      rw [Expr.at?_hole_cons] at h
      contradiction
    | node m hd cs =>
      rw [Expr.at?_node_cons] at h
      obtain ⟨d, hd', hpath⟩ := Option.bind_eq_some_iff.mp h
      -- a constant has no places inside
      have hconst : (Expr.node m hd cs).constant? = none := by
        rw [Expr.constant?_node_eq_none_iff]
        rintro name - rfl
        contradiction
      rw [expand_node hconst, Expr.at?_node_cons, List.getElem?_map, hd', Option.map_some,
        Option.bind_some]
      exact ih hpath

/-! ## Restoring names -/

/-- The note of the name is the one that is read, whatever notes the meaning has itself. -/
theorem restoredName?_namedBy (u : Object) (x : String) : (u.namedBy x).restoredName? = some x := by
  refine Object.restoredName?_eq_some_iff.mpr ⟨u.erase, ?_, ?_⟩
  · rw [Object.mark_namedBy]
    rfl
  · rw [Expr.same_iff, Object.erase_namedBy, Expr.erase_unit]

/-- A meaning is shown by the name that it was put in place of. -/
theorem restore_namedBy (u : Object) (x : String) :
    restore (u.namedBy x) = .node (.mk none u.mark.goal) (.term x) [] := by
  rw [restore_of_restoredName? (restoredName?_namedBy u x), Object.mark_namedBy]
  rfl

/-! ## Replacing and restoring

Of an object that has no note of a name, replacing and restoring change nothing at the root, unless
the object is a name. -/

theorem restore_expand_hole {m : Note} (hm : m.expandedFrom = none) (y : String) :
    restore (A.expand (.hole m y)) = .hole m y := by
  rw [expand_hole, restore_hole (Object.restoredName?_eq_none hm)]

theorem restore_expand_node {m : Note} (hm : m.expandedFrom = none) {hd : Head} {cs : List Object}
    (hc : (Expr.node m hd cs).constant? = none) :
    restore (A.expand (.node m hd cs)) = .node m hd (cs.map fun c => restore (A.expand c)) := by
  rw [expand_node hc, restore_node (Object.restoredName?_eq_none hm), List.map_map]
  rfl

/-- A constant comes back, with the note of a goal if its meaning had one. -/
theorem restore_expand_const (A : Aliases) {m : Note} (hm : m.expandedFrom = none) (x : String) :
    ∃ m' : Note, m'.expandedFrom = none ∧
      restore (A.expand (.node m (.term x) [])) = .node m' (.term x) [] := by
  cases hx : A.get? x with
  | none =>
    refine ⟨m, hm, ?_⟩
    rw [expand_of_get?_eq_none hx, restore_node (Object.restoredName?_eq_none hm), List.map_nil]
  | some u =>
    refine ⟨.mk none u.mark.goal, rfl, ?_⟩
    rw [expand_of_get? hx, restore_namedBy]

theorem erase_restore_expand (A : Aliases) (ho : o.Marked fun m => m.expandedFrom = none) :
    (restore (A.expand o)).erase = o.erase := by
  induction o using Expr.induction_on_constants with
  | hole m x => exact congrArg Expr.erase (restore_expand_hole ho.root x)
  | const m x =>
    obtain ⟨m', -, heq⟩ := restore_expand_const A (Expr.marked_node.mp ho).1 x
    rw [heq]
    rfl
  | node m hd cs hc ih =>
    obtain ⟨hroot, hchildren⟩ := Expr.marked_node.mp ho
    rw [restore_expand_node hroot hc, Expr.erase_node, Expr.erase_node, List.map_map]
    exact congrArg _ (List.map_congr_left fun c hcs => ih c hcs (hchildren c hcs))

/-- What is restored has no notes of names either. -/
theorem marked_restore_expand (A : Aliases) (ho : o.Marked fun m => m.expandedFrom = none) :
    (restore (A.expand o)).Marked fun m => m.expandedFrom = none := by
  induction o using Expr.induction_on_constants with
  | hole m x =>
    have heq : restore (A.expand (.hole m x)) = .hole m x := restore_expand_hole ho.root x
    rwa [heq]
  | const m x =>
    obtain ⟨m', hm', heq⟩ := restore_expand_const A (Expr.marked_node.mp ho).1 x
    rw [heq]
    exact Expr.marked_node.mpr ⟨hm', List.forall_mem_nil _⟩
  | node m hd cs hc ih =>
    obtain ⟨hroot, hchildren⟩ := Expr.marked_node.mp ho
    rw [restore_expand_node hroot hc, Expr.marked_node, List.forall_mem_map]
    exact ⟨hroot, fun c hcs => ih c hcs (hchildren c hcs)⟩

/-- **Names that are replaced and restored.** Let names be given one after the other, to objects
with any notes. An object without notes of names comes back the same, and again without notes of
names, when its names are replaced and restored. In between, what a name was given to last stands
in place of it, wherever it occurs. -/
theorem restore_expand_same (ds : List (String × Object))
    (ho : o.Marked fun m => m.expandedFrom = none) :
    (restore ((given ds).expand o)).same o = true ∧
      ((restore ((given ds).expand o)).Marked fun m => m.expandedFrom = none) ∧
      ∀ path m x u, o.at? path = some (.node m (.term x) []) → ds.reverse.lookup x = some u →
        ∃ v, ((given ds).expand o).at? path = some v ∧ v.same u = true := by
  have herase : (restore ((given ds).expand o)).erase = o.erase := erase_restore_expand _ ho
  refine ⟨(Expr.same_iff _ _).mpr herase, marked_restore_expand _ ho, ?_⟩
  intro path m x u hpath hu
  rw [← get?_given] at hu
  refine ⟨u.namedBy x, ?_, ?_⟩
  · rw [at?_expand hpath, expand_of_get? hu]
  · rw [Expr.same_iff, Object.erase_namedBy]

/-- The name `b` is given to `a`, and then `c` to `b`, which has been replaced by then. -/
def nested : List (String × Object) :=
  [("b", .const "a"), ("c", (given [("b", .const "a")]).expand (.const "b"))]

/-- The rule `a -> c` is restored, though what `c` stands for has a note of the name `b` at its
root. In between it is `a -> a`. -/
theorem restore_expand_nested :
    (((given nested).expand (.rule (.const "a") "->" (.const "c"))).same
        (.rule (.const "a") "->" (.const "a") : Object) = true) ∧
      (restore ((given nested).expand (.rule (.const "a") "->" (.const "c")))).same
        (.rule (.const "a") "->" (.const "c") : Object) = true := by
  refine ⟨by decide +kernel, ?_⟩
  have hconst : ∀ x, (.const x : Object).Marked fun m => m.expandedFrom = none :=
    fun x => Expr.marked_node.mpr ⟨rfl, List.forall_mem_nil _⟩
  exact (restore_expand_same nested (Expr.marked_pair.mpr ⟨rfl, hconst "a", hconst "c"⟩)).1

end Aliases

end RuleProver
