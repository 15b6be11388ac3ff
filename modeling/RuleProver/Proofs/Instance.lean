import RuleProver.Unification
import Mathlib.Data.List.Basic

/-!
# Instances of expressions

An expression with holes stands for all that it becomes when its holes are filled. This file gives
the operations on holes their small lemmas, and defines the instances of an expression, in which
every hole is filled and the marks are forgotten.

Renaming, filling and erasing go through the children of a node with functions of their own. The
lemmas below state them by `List.map` and `List.flatMap` instead, so that every later proof is an
induction on one expression, with a hypothesis for each child.

## Main definitions

* `Expr.inst` — an expression with every hole filled, without marks
* `Expr.Ground` — no holes
* `Expr.GroundInstance` — the instances without holes
* `Assignment.andThen` — an assignment followed by values for the holes that are left

## Main results

* `Expr.inst_fill`, `Expr.inst_rename` — instances after filling and after renaming
* `Expr.inst_eq_inst_iff` — an instance determines the values of the holes that occur
-/

namespace RuleProver

namespace Expr

variable {α : Type}

/-- Induction on an expression, with a hypothesis for every child of a node. -/
@[induction_eliminator]
theorem induction_on_children {motive : Expr α → Prop} (hole : ∀ m x, motive (.hole m x))
    (node : ∀ m h cs, (∀ c ∈ cs, motive c) → motive (.node m h cs)) (t : Expr α) : motive t := by
  refine @Expr.rec α motive (fun cs => ∀ c ∈ cs, motive c) hole node ?_ ?_ t
  · intro c hc
    simp at hc
  · intro c cs hc hcs d hd
    rcases List.mem_cons.mp hd with rfl | hd
    · exact hc
    · exact hcs d hd

/-! ## Nodes and their children -/

@[simp] theorem erase_hole (m : α) (x : String) : (Expr.hole m x).erase = .hole () x := by
  rw [erase]

@[simp] theorem erase_node (m : α) (h : Head) (cs : List (Expr α)) :
    (Expr.node m h cs).erase = .node () h (cs.map erase) := by
  rw [erase, eraseAll_eq_map]

@[simp] theorem holes_hole (m : α) (x : String) : (Expr.hole m x).holes = [x] := by
  rw [holes]

@[simp] theorem holes_node (m : α) (h : Head) (cs : List (Expr α)) :
    (Expr.node m h cs).holes = cs.flatMap holes := by
  rw [holes]
  induction cs with
  | nil => rw [holesAll, List.flatMap_nil]
  | cons c cs ih => rw [holesAll, ih, List.flatMap_cons]

@[simp] theorem rename_hole (ρ : String → String) (m : α) (x : String) :
    (Expr.hole m x).rename ρ = .hole m (ρ x) := by
  rw [rename]

@[simp] theorem rename_node (ρ : String → String) (m : α) (h : Head) (cs : List (Expr α)) :
    (Expr.node m h cs).rename ρ = .node m h (cs.map (rename ρ)) := by
  rw [rename]
  congr 1
  induction cs with
  | nil => rw [renameAll, List.map_nil]
  | cons c cs ih => rw [renameAll, ih, List.map_cons]

@[simp] theorem subst_hole (σ : String → Option (Expr α)) (m : α) (x : String) :
    (Expr.hole m x).subst σ = (σ x).getD (.hole m x) := by
  rw [subst]

@[simp] theorem subst_node (σ : String → Option (Expr α)) (m : α) (h : Head)
    (cs : List (Expr α)) : (Expr.node m h cs).subst σ = .node m h (cs.map (subst σ)) := by
  rw [subst]
  congr 1
  induction cs with
  | nil => rw [substAll, List.map_nil]
  | cons c cs ih => rw [substAll, ih, List.map_cons]

@[simp] theorem holes_rename (ρ : String → String) (t : Expr α) :
    (t.rename ρ).holes = t.holes.map ρ := by
  induction t with
  | hole m x => simp
  | node m h cs ih =>
    rw [rename_node, holes_node, holes_node, List.flatMap_map, List.map_flatMap]
    exact List.flatMap_congr ih

mutual

/-- The heads of the nodes of an expression. -/
def heads : Expr α → List Head
  | .hole _ _ => []
  | .node _ h cs => h :: headsAll cs

/-- The heads of the nodes of a list of expressions. -/
def headsAll : List (Expr α) → List Head
  | [] => []
  | c :: cs => heads c ++ headsAll cs

end

@[simp] theorem heads_hole (m : α) (x : String) : (Expr.hole m x).heads = [] := by
  rw [heads]

@[simp] theorem heads_node (m : α) (h : Head) (cs : List (Expr α)) :
    (Expr.node m h cs).heads = h :: cs.flatMap heads := by
  rw [heads]
  congr 1
  induction cs with
  | nil => rw [headsAll, List.flatMap_nil]
  | cons c cs ih => rw [headsAll, ih, List.flatMap_cons]

theorem mem_holeNames {t : Expr α} {x : String} : x ∈ t.holeNames ↔ x ∈ t.holes := by
  rw [holeNames, List.mem_eraseDups]

/-! ## Instances -/

/-- The expression with the value `θ x` in place of every hole `#x`, without marks. -/
def inst (θ : String → Expr Unit) (t : Expr α) : Expr Unit := t.erase.subst fun x => some (θ x)

@[simp] theorem inst_hole (θ : String → Expr Unit) (m : α) (x : String) :
    (Expr.hole m x).inst θ = θ x := by
  simp [inst]

@[simp] theorem inst_node (θ : String → Expr Unit) (m : α) (h : Head) (cs : List (Expr α)) :
    (Expr.node m h cs).inst θ = .node () h (cs.map (inst θ)) := by
  rw [inst, erase_node, subst_node, List.map_map]
  rfl

/-- Two fillings give the same instance exactly when they agree on the holes that occur. -/
theorem inst_eq_inst_iff {θ η : String → Expr Unit} (t : Expr α) :
    t.inst θ = t.inst η ↔ ∀ x ∈ t.holes, θ x = η x := by
  induction t with
  | hole m x => simp
  | node m h cs ih =>
    rw [inst_node, inst_node, holes_node]
    simp only [node.injEq, true_and, List.map_inj_left, List.mem_flatMap]
    constructor
    · rintro hcs x ⟨c, hc, hx⟩
      exact (ih c hc).mp (hcs c hc) x hx
    · intro hx c hc
      exact (ih c hc).mpr fun x hxc => hx x ⟨c, hc, hxc⟩

theorem inst_congr {θ η : String → Expr Unit} {t : Expr α} (h : ∀ x ∈ t.holes, θ x = η x) :
    t.inst θ = t.inst η :=
  (inst_eq_inst_iff t).mpr h

/-- Filling every hole with itself only forgets the marks. -/
@[simp] theorem inst_var (t : Expr α) : t.inst var = t.erase := by
  induction t with
  | hole m x => simp
  | node m h cs ih =>
    rw [inst_node, erase_node]
    congr 1
    exact List.map_congr_left ih

@[simp] theorem inst_erase (θ : String → Expr Unit) (t : Expr α) : t.erase.inst θ = t.inst θ := by
  rw [inst, erase_unit, inst]

/-- Expressions that agree up to marks have the same instances. -/
theorem inst_eq_of_same {a b : Expr α} (h : a.same b = true) (θ : String → Expr Unit) :
    a.inst θ = b.inst θ := by
  rw [← inst_erase, (same_iff a b).mp h, inst_erase]

/-- An instance of an instance fills in one step. -/
theorem inst_inst (θ η : String → Expr Unit) (t : Expr α) :
    (t.inst θ).inst η = t.inst fun x => (θ x).inst η := by
  induction t with
  | hole m x => simp
  | node m h cs ih =>
    rw [inst_node, inst_node, inst_node, List.map_map]
    congr 1
    exact List.map_congr_left ih

theorem inst_rename (θ : String → Expr Unit) (ρ : String → String) (t : Expr α) :
    (t.rename ρ).inst θ = t.inst fun x => θ (ρ x) := by
  induction t with
  | hole m x => simp
  | node m h cs ih =>
    rw [rename_node, inst_node, inst_node, List.map_map]
    congr 1
    exact List.map_congr_left ih

theorem holes_inst (θ : String → Expr Unit) (t : Expr α) :
    (t.inst θ).holes = t.holes.flatMap fun x => (θ x).holes := by
  induction t with
  | hole m x => simp
  | node m h cs ih =>
    rw [inst_node, holes_node, holes_node, List.flatMap_map, List.flatMap_assoc]
    exact List.flatMap_congr ih

end Expr

/-- Values for all holes: those that `σ` binds stand for the instance of what they are bound to,
the others for what `θ` says. -/
def Assignment.andThen {α : Type} (σ : Assignment α) (θ : String → Expr Unit) (x : String) :
    Expr Unit :=
  (σ.get? x).elim (θ x) (Expr.inst θ)

namespace Expr

variable {α : Type}

theorem inst_fill (θ : String → Expr Unit) (σ : Assignment α) (t : Expr α) :
    (t.fill σ).inst θ = t.inst (σ.andThen θ) := by
  rw [fill]
  induction t with
  | hole m x =>
    rw [subst_hole, inst_hole, Assignment.andThen]
    cases σ.get? x with
    | none => exact inst_hole θ m x
    | some u => rfl
  | node m h cs ih =>
    rw [subst_node, inst_node, inst_node, List.map_map]
    congr 1
    exact List.map_congr_left ih

/-! ## Ground instances -/

/-- An expression without holes. -/
def Ground (t : Expr α) : Prop := t.holes = []

instance (t : Expr α) : Decidable t.Ground := inferInstanceAs (Decidable (_ = _))

theorem ground_inst_iff {θ : String → Expr Unit} {t : Expr α} :
    (t.inst θ).Ground ↔ ∀ x ∈ t.holes, (θ x).Ground := by
  rw [Ground, holes_inst, List.flatMap_eq_nil_iff]
  rfl

/-- `u` is what `t` becomes when its holes are filled, each with the same expression wherever it
occurs, and with expressions that have no holes themselves. -/
def GroundInstance (t : Expr α) (u : Expr Unit) : Prop :=
  ∃ θ : String → Expr Unit, (∀ x ∈ t.holes, (θ x).Ground) ∧ t.inst θ = u

theorem GroundInstance.ground {t : Expr α} {u : Expr Unit} (h : t.GroundInstance u) :
    u.Ground := by
  obtain ⟨θ, hθ, rfl⟩ := h
  exact ground_inst_iff.mpr hθ

end Expr

end RuleProver
