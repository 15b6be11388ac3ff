import RuleProver.Proofs.GroundComposition
import Mathlib.Logic.Relation

/-!
# Reduction without holes

A step of rewriting carries out one composition that succeeds, anywhere in an expression. Without
holes every step spends a composition, so no sequence of steps is longer than the number of
compositions there were.

The order of the steps does not matter either. A pass of reduction deals with the children first and
then with the root, and without holes one pass is all it takes: whatever steps are made before it,
the pass comes to the same result (`Rewrites.reduceOnce_eq`). At the root this comes down to the two
ways to compose. The sides that must agree for a composition to succeed still agree after a pass, so
what they have become is composed too, and in the same way.

A pass that changes nothing need not have found nothing to do: it may have rebuilt a composition
that it carried out. Where this does not happen, what the pass leaves alone is irreducible
(`irreducible_of_reduceOnce_eq`), and without holes it cannot happen.

## Main definitions

* `Expr.EachComp` — a property of all compositions in an expression
* `Expr.Rewrites` — one composition is carried out, anywhere
* `Expr.Irreducible` — no composition inside succeeds
* `Expr.Rebuilds` — a pass carries out a composition, and it is there again

## Main results

* `Expr.Rewrites.compCount_lt` — without holes a step spends a composition
* `Expr.Rewrites.reduceOnce_eq` — without holes a step changes nothing about what a pass comes to
* `Expr.rewriting_terminates_confluent` — rewriting ends, at one result, and reducing finds it
-/

namespace RuleProver

namespace Expr

open Relation

variable {α : Type}

/-! ## Compositions and parts -/

@[simp] theorem heads_erase (t : Expr α) : t.erase.heads = t.heads := by
  induction t with
  | hole m x => rw [erase_hole, heads_hole, heads_hole]
  | node m h cs ih =>
    rw [erase_node, heads_node, heads_node, List.flatMap_map]
    exact congrArg _ (List.flatMap_congr ih)

/-- The number of compositions in an expression. -/
def compCount (t : Expr α) : Nat := t.heads.count .comp

@[simp] theorem compCount_erase (t : Expr α) : t.erase.compCount = t.compCount := by
  rw [compCount, heads_erase, compCount]

theorem compCount_node (m : α) (h : Head) (cs : List (Expr α)) :
    (node m h cs).compCount = (cs.flatMap heads).count .comp + if h = .comp then 1 else 0 := by
  rw [compCount, heads_node, List.count_cons]
  simp

theorem compCount_pair (m : α) (h : Head) (l r : Expr α) :
    (node m h [l, r]).compCount = l.compCount + r.compCount + if h = .comp then 1 else 0 := by
  rw [compCount_node, List.flatMap_cons, List.flatMap_cons, List.flatMap_nil, List.append_nil,
    List.count_append]
  rfl

/-- A composition that is carried out is gone, and with it a side at least. -/
theorem Fires.compCount_le {l r v : Expr Unit} (h : Fires l r v) :
    v.compCount ≤ l.compCount + r.compCount := by
  cases h with
  | chain a b d s =>
    simp only [compCount_pair]
    omega
  | apply l d s =>
    rw [compCount_pair]
    omega

/-- A path into a node goes through one of its children. -/
theorem at?_node_cons {m : α} {h : Head} {cs : List (Expr α)} (i : Nat) (path : List Nat) :
    (node m h cs).at? (i :: path) = cs[i]?.bind fun c => c.at? path := by
  rw [at?, children]

theorem at?_hole_cons {m : α} {x : String} (i : Nat) (path : List Nat) :
    (hole m x).at? (i :: path) = none := by
  rw [at?, children, List.getElem?_nil, Option.bind_none]

theorem at?_hole_eq_some {m : α} {x : String} {path : List Nat} {u : Expr α} :
    (hole m x).at? path = some u ↔ path = [] ∧ u = .hole m x := by
  cases path with
  | nil => exact ⟨fun h => ⟨rfl, (Option.some.inj h).symm⟩, fun h => congrArg some h.2.symm⟩
  | cons i path =>
    rw [at?_hole_cons]
    constructor
    · intro h
      cases h
    · rintro ⟨h, -⟩
      cases h

theorem at?_erase (t : Expr α) (path : List Nat) :
    t.erase.at? path = (t.at? path).map erase := by
  induction path generalizing t with
  | nil => rfl
  | cons i path ih =>
    have hchildren : t.erase.children = t.children.map erase := by
      cases t <;> simp [children]
    rw [at?, at?, hchildren, List.getElem?_map]
    cases t.children[i]? with
    | none => rfl
    | some c => exact ih c

/-- Every composition that is a part of the expression has sides with the property `P`. -/
def EachComp (P : Expr α → Expr α → Prop) (t : Expr α) : Prop :=
  ∀ path m l r, t.at? path = some (.node m .comp [l, r]) → P l r

theorem eachComp_hole {P : Expr α → Expr α → Prop} (m : α) (x : String) :
    (hole m x).EachComp P := by
  intro path m' l r hpath
  cases (at?_hole_eq_some.mp hpath).2

/-- The compositions in a node are those in its children, and the node itself. -/
theorem eachComp_node {P : Expr α → Expr α → Prop} {m : α} {h : Head} {cs : List (Expr α)} :
    (node m h cs).EachComp P ↔
      (∀ c ∈ cs, c.EachComp P) ∧ ∀ l r, h = .comp → cs = [l, r] → P l r := by
  constructor
  · intro ht
    refine ⟨fun c hc path m' l r hpath => ?_, ?_⟩
    · obtain ⟨i, hi⟩ := List.mem_iff_getElem?.mp hc
      refine ht (i :: path) m' l r ?_
      rw [at?_node_cons, hi, Option.bind_some, hpath]
    · rintro l r rfl rfl
      exact ht [] m l r rfl
  · rintro ⟨hcs, hroot⟩ path m' l r hpath
    cases path with
    | nil =>
      obtain ⟨-, hh, hpair⟩ := node.inj (Option.some.inj hpath)
      exact hroot l r hh hpair
    | cons i path =>
      rw [at?_node_cons] at hpath
      obtain ⟨c, hc, hpath⟩ := Option.bind_eq_some_iff.mp hpath
      exact hcs c (List.mem_of_getElem? hc) path m' l r hpath

theorem eachComp_erase {P : Expr Unit → Expr Unit → Prop} {t : Expr α} :
    t.erase.EachComp P ↔ t.EachComp fun l r => P l.erase r.erase := by
  constructor
  · intro h path m l r hpath
    exact h path () l.erase r.erase (by rw [at?_erase, hpath]; simp)
  · intro h path u l' r' hpath
    rw [at?_erase] at hpath
    obtain ⟨p, hp, hpair⟩ := Option.map_eq_some_iff.mp hpath
    obtain ⟨m, l, r, rfl, rfl, rfl⟩ := exists_of_erase_eq_pair hpair
    exact h path m l r hp

theorem EachComp.imp {P Q : Expr α → Expr α → Prop} {t : Expr α} (h : t.EachComp P)
    (hPQ : ∀ l r, P l r → Q l r) : t.EachComp Q :=
  fun path m l r hpath => hPQ l r (h path m l r hpath)

section

variable [Inhabited α] [HoleOrder]

/-! ## Steps of rewriting -/

/-- One composition that succeeds is carried out, anywhere in an expression. -/
inductive Rewrites : Expr α → Expr α → Prop
  | root {m : α} {l r v : Expr α} (hv : l.compose r = some v) :
      Rewrites (.node m .comp [l, r]) v
  | child {m : α} {h : Head} {before after : List (Expr α)} {c d : Expr α} (hcd : Rewrites c d) :
      Rewrites (.node m h (before ++ c :: after)) (.node m h (before ++ d :: after))

/-- No composition that is a part of the expression succeeds. -/
def Irreducible (t : Expr α) : Prop :=
  ∀ path m l r, t.at? path = some (.node m .comp [l, r]) → l.compose r = none

theorem irreducible_erase {t : Expr α} : t.erase.Irreducible ↔ t.Irreducible := by
  have hnone : ∀ l r : Expr α, l.erase.compose r.erase = none ↔ l.compose r = none := by
    intro l r
    rw [compose_erase, Option.map_eq_none_iff]
  refine eachComp_erase.trans ⟨fun h => ?_, fun h => ?_⟩
  · exact EachComp.imp h fun l r => (hnone l r).mp
  · exact EachComp.imp h fun l r => (hnone l r).mpr

/-- An expression is irreducible when its children are and no composition succeeds at the root. -/
theorem irreducible_node {m : α} {h : Head} {cs : List (Expr α)} :
    (node m h cs).Irreducible ↔
      (∀ c ∈ cs, c.Irreducible) ∧ ∀ l r, h = .comp → cs = [l, r] → l.compose r = none :=
  eachComp_node

/-- A composition that succeeds somewhere makes a step. -/
theorem exists_rewrites_of_at? {t v l r : Expr α} {path : List Nat} {m : α}
    (hpath : t.at? path = some (.node m .comp [l, r])) (hv : l.compose r = some v) :
    ∃ u, t.Rewrites u := by
  induction path generalizing t with
  | nil =>
    obtain rfl := Option.some.inj hpath
    exact ⟨v, .root hv⟩
  | cons i path ih =>
    rw [at?] at hpath
    obtain ⟨c, hc, hpath⟩ := Option.bind_eq_some_iff.mp hpath
    obtain ⟨d, hd⟩ := ih hpath
    cases t with
    | hole m x => simp [children] at hc
    | node m h cs =>
      obtain ⟨before, after, rfl⟩ := List.append_of_mem (List.mem_of_getElem? hc)
      exact ⟨_, .child hd⟩

theorem irreducible_of_forall_not_rewrites {t : Expr α} (h : ∀ u, ¬ t.Rewrites u) :
    t.Irreducible := by
  intro path m l r hpath
  by_contra hsome
  obtain ⟨v, hv⟩ := Option.ne_none_iff_exists'.mp hsome
  obtain ⟨u, hu⟩ := exists_rewrites_of_at? hpath hv
  exact h u hu

/-! ## Reducing is rewriting -/

/-- Steps in one child are steps of the node. -/
theorem reflTransGen_child {m : α} {h : Head} {before after : List (Expr α)}
    {c d : Expr α}
    (hcd : ReflTransGen Rewrites c d) : ReflTransGen Rewrites (.node m h (before ++ c :: after))
      (.node m h (before ++ d :: after)) := by
  induction hcd with
  | refl => exact .refl
  | tail _ hstep ih => exact ih.tail (.child hstep)

/-- Steps in all children are steps of the node. -/
theorem reflTransGen_map {m : α} {h : Head} {f : Expr α → Expr α}
    (before cs : List (Expr α)) (hf : ∀ c ∈ cs, ReflTransGen Rewrites c (f c)) :
    ReflTransGen Rewrites (.node m h (before ++ cs)) (.node m h (before ++ cs.map f)) := by
  induction cs generalizing before with
  | nil => exact .refl
  | cons c cs ih =>
    -- the first child has taken its steps, and joins the ones before
    have hrest := ih (before ++ [f c]) fun d hd => hf d (List.mem_cons_of_mem c hd)
    rw [List.append_assoc, List.append_assoc] at hrest
    exact (reflTransGen_child (hf c List.mem_cons_self)).trans hrest

/-- Contracting carries out the composition at the root, unless there is none that succeeds. -/
theorem contract_cases (t : Expr α) :
    (t.contract = t ∧ ∀ m l r, t = .node m .comp [l, r] → l.compose r = none) ∨
      ∃ m l r, t = .node m .comp [l, r] ∧ l.compose r = some t.contract := by
  unfold contract
  split
  · rename_i m l r
    cases hv : l.compose r with
    | none =>
      refine .inl ⟨rfl, fun m' l' r' heq => ?_⟩
      cases heq
      exact hv
    | some v => exact .inr ⟨m, l, r, rfl, hv⟩
  · rename_i hno
    exact .inl ⟨rfl, fun m l r heq => absurd heq (hno m l r)⟩

theorem reflTransGen_reduceOnce (t : Expr α) :
    ReflTransGen Rewrites t t.reduceOnce := by
  induction t with
  | hole m x =>
    rw [reduceOnce_hole]
  | node m h cs ih =>
    have hchildren : ReflTransGen Rewrites (.node m h cs) (.node m h (reducedChildren cs)) := by
      rw [reducedChildren]
      split
      · exact .refl
      · exact reflTransGen_map [] cs ih
    rw [reduceOnce_node]
    obtain ⟨hcontract, -⟩ | ⟨m', l, r, heq, hv⟩ := contract_cases (node m h (reducedChildren cs))
    · rwa [hcontract]
    · rw [heq] at hchildren hv ⊢
      exact hchildren.tail (.root hv)

/-- What reducing returns is reached by steps of rewriting. -/
theorem reflTransGen_of_reduceWithin {limit : Nat} {t u : Expr α}
    (h : t.reduceWithin limit = some u) : ReflTransGen Rewrites t u := by
  induction limit generalizing t with
  | zero => contradiction
  | succ limit ih =>
    rw [reduceWithin] at h
    split at h
    · obtain rfl := Option.some.inj h
      exact .refl
    · exact (reflTransGen_reduceOnce t).trans (ih h)

/-! ## Passes that change nothing -/

/-- A pass carries out the composition `l | r`, and what comes of it is `l | r` again. -/
def Rebuilds (l r : Expr α) : Prop :=
  ∃ v, l.reduceOnce.compose r.reduceOnce = some v ∧ v.same (comp l r) = true

/-- What a pass leaves alone is irreducible, if it rebuilds no composition. -/
theorem irreducible_of_reduceOnce_eq {t : Expr Unit} (h : t.reduceOnce = t)
    (hno : t.EachComp fun l r => ¬ Rebuilds l r) : t.Irreducible := by
  induction t with
  | hole m x => exact eachComp_hole m x
  | node m k cs ih =>
    obtain ⟨hchildren, hno⟩ := eachComp_node.mp hno
    rw [reduceOnce_node_unit] at h
    obtain ⟨hcontract, hroot⟩ | ⟨m', l', r', heq, hv⟩ :=
      contract_cases (node m k (cs.map reduceOnce))
    · have hcs : cs.map reduceOnce = cs := (node.inj (hcontract.symm.trans h)).2.2
      rw [hcs] at hroot
      have hfixed := List.map_inj_left.mp (hcs.trans (List.map_id cs).symm)
      refine irreducible_node.mpr ⟨fun c hc => ih c hc (hfixed c hc) (hchildren c hc), ?_⟩
      rintro l r rfl rfl
      exact hroot m l r rfl
    · -- the composition at the root is carried out, and the pass ends where it began
      obtain ⟨-, rfl, hcs⟩ := node.inj heq
      have hlen : cs.length = 2 := by simpa using congrArg List.length hcs
      obtain ⟨l, r, rfl⟩ := List.length_eq_two.mp hlen
      obtain ⟨rfl, rfl⟩ : l.reduceOnce = l' ∧ r.reduceOnce = r' := by simpa using hcs
      rw [h] at hv
      exact absurd ⟨_, hv, same_refl _⟩ (hno l r rfl rfl)

/-! ## Steps without holes -/

theorem fires_of_compose {l r v : Expr α} (hl : l.Ground) (hr : r.Ground)
    (hv : l.compose r = some v) : Fires l.erase r.erase v.erase := by
  rw [← compose_eq_some_iff (ground_erase.mpr hl) (ground_erase.mpr hr), compose_erase, hv,
    Option.map_some]

theorem Rewrites.ground {t u : Expr α} (h : t.Rewrites u) (ht : t.Ground) :
    u.Ground := by
  induction h with
  | root hv =>
    obtain ⟨hl, hr⟩ := ground_pair.mp ht
    rw [← ground_erase]
    exact (fires_of_compose hl hr hv).ground (ground_erase.mpr hl) (ground_erase.mpr hr)
  | child hcd ih =>
    simp only [ground_node, List.mem_append, List.mem_cons] at ht ⊢
    rintro e (he | rfl | he)
    · exact ht e (.inl he)
    · exact ih (ht _ (.inr (.inl rfl)))
    · exact ht e (.inr (.inr he))

/-- **Without holes a step spends a composition.** -/
theorem Rewrites.compCount_lt {t u : Expr α} (h : t.Rewrites u) (ht : t.Ground) :
    u.compCount < t.compCount := by
  induction h with
  | root hv =>
    obtain ⟨hl, hr⟩ := ground_pair.mp ht
    have hle := (fires_of_compose hl hr hv).compCount_le
    simp only [compCount_erase] at hle
    rw [compCount_pair, if_pos rfl]
    omega
  | child hcd ih =>
    have hlt := ih (ground_node.mp ht _ (by simp))
    rw [compCount, compCount] at hlt
    simp only [compCount_node, List.flatMap_append, List.flatMap_cons, List.count_append]
    omega

theorem ground_of_reflTransGen {t u : Expr α} (h : ReflTransGen Rewrites t u)
    (ht : t.Ground) :
    u.Ground := by
  induction h with
  | refl => exact ht
  | tail _ hstep ih => exact hstep.ground ih

theorem compCount_le_of_reflTransGen {t u : Expr α} (h : ReflTransGen Rewrites t u)
    (ht : t.Ground) : u.compCount ≤ t.compCount := by
  induction h with
  | refl => exact le_rfl
  | tail hsteps hstep ih =>
    exact (hstep.compCount_lt (ground_of_reflTransGen hsteps ht)).le.trans ih

theorem Ground.reduceOnce {t : Expr α} (ht : t.Ground) : t.reduceOnce.Ground :=
  ground_of_reflTransGen (reflTransGen_reduceOnce t) ht

/-- Without holes no composition is rebuilt: it is spent, and none comes up in its place. -/
theorem not_rebuilds_of_ground {l r : Expr α} (hl : l.Ground) (hr : r.Ground) :
    ¬ Rebuilds l r := by
  rintro ⟨v, hv, hsame⟩
  have hspent := (fires_of_compose hl.reduceOnce hr.reduceOnce hv).compCount_le
  have hleft := compCount_le_of_reflTransGen (reflTransGen_reduceOnce l) hl
  have hright := compCount_le_of_reflTransGen (reflTransGen_reduceOnce r) hr
  rw [(same_iff _ _).mp hsame] at hspent
  simp only [compCount_erase, compCount_pair, if_pos] at hspent
  omega

theorem Ground.eachComp_not_rebuilds {t : Expr α} (ht : t.Ground) :
    t.EachComp fun l r => ¬ Rebuilds l r := by
  induction t with
  | hole m x => exact eachComp_hole m x
  | node m h cs ih =>
    refine eachComp_node.mpr ⟨fun c hc => ih c hc (ground_node.mp ht c hc), ?_⟩
    rintro l r - rfl
    exact not_rebuilds_of_ground (ground_pair.mp ht).1 (ground_pair.mp ht).2

/-! ## One pass is enough -/

/-- Nothing happens at the root of an irreducible expression. -/
theorem Irreducible.contract_eq {t : Expr α} (ht : t.Irreducible) : t.contract = t := by
  unfold contract
  split
  · rename_i m l r
    rw [ht [] m l r rfl, Option.getD_none]
  · rfl

/-- A pass leaves an irreducible expression alone. -/
theorem Irreducible.reduceOnce_eq {t : Expr Unit} (ht : t.Irreducible) :
    t.reduceOnce = t := by
  induction t with
  | hole m x => rw [reduceOnce_hole]
  | node m h cs ih =>
    have hcs : cs.map reduceOnce = cs :=
      (List.map_congr_left fun c hc => ih c hc ((irreducible_node.mp ht).1 c hc)).trans
        (List.map_id' cs)
    rw [reduceOnce_node_unit, hcs, ht.contract_eq]

theorem reduceOnce_rule (a : Expr Unit) (s : String) (d : Expr Unit) :
    (rule a s d).reduceOnce = rule a.reduceOnce s d.reduceOnce := by
  rw [reduceOnce_node_unit, contract_of_ne Head.noConfusion]
  rfl

theorem reduceOnce_comp (l r : Expr Unit) :
    (comp l r).reduceOnce = contract (comp l.reduceOnce r.reduceOnce) :=
  reduceOnce_node_unit () .comp [l, r]

theorem contract_of_fires {l r v : Expr Unit} (hl : l.Ground) (hr : r.Ground)
    (h : Fires l r v) :
    contract (comp l r) = v :=
  congrArg (Option.getD · _) ((compose_eq_some_iff hl hr).mpr h)

/-- What becomes of the sides of a composition that succeeds is composed likewise. -/
theorem Fires.reduceOnce {l r v : Expr Unit} (h : Fires l r v) :
    Fires l.reduceOnce r.reduceOnce v.reduceOnce := by
  cases h with
  | chain a b d s =>
    simp only [reduceOnce_rule]
    exact .chain _ _ _ s
  | apply l d s =>
    rw [reduceOnce_rule]
    exact .apply _ _ s

/-- **Without holes a step changes nothing about what a pass comes to.** -/
theorem Rewrites.reduceOnce_eq {t u : Expr α} (h : t.Rewrites u) (ht : t.Ground) :
    t.erase.reduceOnce = u.erase.reduceOnce := by
  induction h with
  | @root m l r v hv =>
    obtain ⟨hl, hr⟩ := ground_pair.mp ht
    rw [erase_node]
    refine (reduceOnce_comp l.erase r.erase).trans ?_
    exact contract_of_fires (ground_erase.mpr hl).reduceOnce (ground_erase.mpr hr).reduceOnce
      (fires_of_compose hl hr hv).reduceOnce
  | child hcd ih =>
    have hcd := ih (ground_node.mp ht _ (by simp))
    simp only [erase_node, reduceOnce_node_unit, List.map_append, List.map_cons, hcd]

theorem reduceOnce_eq_of_reflTransGen {t u : Expr α} (h : ReflTransGen Rewrites t u)
    (ht : t.Ground) : t.erase.reduceOnce = u.erase.reduceOnce := by
  induction h with
  | refl => rfl
  | tail hsteps hstep ih => exact ih.trans (hstep.reduceOnce_eq (ground_of_reflTransGen hsteps ht))

/-- A second pass finds nothing to do, when there are no holes. -/
theorem Ground.reduced_reduceOnce {t : Expr α} (ht : t.Ground) :
    t.reduceOnce.Reduced := by
  rw [Reduced, same_iff]
  calc t.reduceOnce.reduceOnce.erase = t.reduceOnce.erase.reduceOnce := (reduceOnce_erase _).symm
    _ = t.erase.reduceOnce := (reduceOnce_eq_of_reflTransGen (reflTransGen_reduceOnce t) ht).symm
    _ = t.reduceOnce.erase := reduceOnce_erase t

/-- A reduced expression is irreducible, when it has no holes. -/
theorem Reduced.irreducible {t : Expr α} (h : t.Reduced) (ht : t.Ground) :
    t.Irreducible := by
  rw [Reduced, same_iff, ← reduceOnce_erase] at h
  exact irreducible_erase.mp
    (irreducible_of_reduceOnce_eq h (ground_erase.mpr ht).eachComp_not_rebuilds)

/-! ## Rewriting ends, at one result -/

/-- No sequence of steps is longer than the number of compositions it starts with. -/
theorem exists_not_rewrites {t : Expr α} (ht : t.Ground) {f : Nat → Expr α}
    (hf : f 0 = t) :
    ∃ i ≤ t.compCount, ¬ (f i).Rewrites (f (i + 1)) := by
  by_contra! hall
  have hspent : ∀ i ≤ t.compCount + 1, (f i).Ground ∧ (f i).compCount + i ≤ t.compCount := by
    intro i hi
    induction i with
    | zero => rw [hf]; exact ⟨ht, le_rfl⟩
    | succ i ih =>
      obtain ⟨hground, hle⟩ := ih (by omega)
      have hstep := hall i (by omega)
      have hlt := hstep.compCount_lt hground
      exact ⟨hstep.ground hground, by omega⟩
  have hlast := (hspent (t.compCount + 1) le_rfl).2
  omega

/-- Where a second pass finds nothing to do, two passes reduce an expression to what the first comes
to. More passes than there are compositions are enough as well, since none is needed where there are
no compositions. -/
theorem exists_reduceWithin {t : Expr α} (h : t.reduceOnce.Reduced) :
    ∃ n : Expr α, n.erase = t.erase.reduceOnce ∧
      ∀ limit, 2 ≤ limit ∨ t.compCount < limit → t.reduceWithin limit = some n := by
  rw [reduceOnce_erase]
  by_cases hreduced : t.Reduced
  · refine ⟨t, ((same_iff _ _).mp hreduced).symm, fun limit hlimit => ?_⟩
    obtain ⟨limit, rfl⟩ := Nat.exists_eq_succ_of_ne_zero (by omega : limit ≠ 0)
    exact if_pos hreduced
  · have hcount : t.compCount ≠ 0 := fun hzero =>
      hreduced (reduced_of_compFree (List.count_eq_zero.mp hzero))
    refine ⟨t.reduceOnce, rfl, fun limit hlimit => ?_⟩
    obtain ⟨limit, rfl⟩ := Nat.exists_eq_add_of_le (by omega : 2 ≤ limit)
    rw [Nat.add_comm]
    exact (if_neg hreduced).trans (if_pos h)

theorem exists_reduce? {t : Expr α} (h : t.reduceOnce.Reduced) :
    ∃ n, t.reduce? = some n ∧ n.erase = t.erase.reduceOnce := by
  obtain ⟨n, hn, hreduce⟩ := exists_reduceWithin h
  exact ⟨n, hreduce stepLimit (.inl (by decide)), hn⟩

/-- Reducing an expression without holes comes to what a pass comes to. -/
theorem Ground.erase_of_reduce? {t n : Expr α} (ht : t.Ground)
    (h : t.reduce? = some n) :
    n.erase = t.erase.reduceOnce := by
  obtain ⟨n', hn', herase⟩ := exists_reduce? ht.reduced_reduceOnce
  rwa [Option.some.inj (h.symm.trans hn')]

/-- **Rewriting ends, at one result, and reducing finds it.** From an expression without holes no
sequence of steps is longer than the number of compositions. There is an irreducible expression
that the steps reach, every sequence of steps that cannot go on ends there, marks apart, and
reducing returns it as soon as more steps are allowed than there are compositions. -/
theorem rewriting_terminates_confluent {t : Expr α} (ht : t.Ground) :
    (∀ f : Nat → Expr α, f 0 = t → ∃ i ≤ t.compCount, ¬ (f i).Rewrites (f (i + 1))) ∧
      ∃ n : Expr α, ReflTransGen Rewrites t n ∧ n.Irreducible ∧
        (∀ u, ReflTransGen Rewrites t u → (∀ v, ¬ u.Rewrites v) → u.same n = true) ∧
        ∀ limit, t.compCount < limit → t.reduceWithin limit = some n := by
  refine ⟨fun f hf => exists_not_rewrites ht hf, ?_⟩
  obtain ⟨n, herase, hn⟩ := exists_reduceWithin ht.reduced_reduceOnce
  have hreduced := hn (t.compCount + 1) (.inr (Nat.lt_succ_self _))
  have hreach := reflTransGen_of_reduceWithin hreduced
  have hirreducible := (reduced_of_reduceWithin hreduced).irreducible
    (ground_of_reflTransGen hreach ht)
  refine ⟨n, hreach, hirreducible, fun u hu hmax => ?_, fun limit hlimit => hn limit (.inr hlimit)⟩
  have hu' := irreducible_of_forall_not_rewrites hmax
  rw [same_iff]
  calc u.erase = u.erase.reduceOnce := (irreducible_erase.mpr hu').reduceOnce_eq.symm
    _ = t.erase.reduceOnce := (reduceOnce_eq_of_reflTransGen hu ht).symm
    _ = n.erase := herase.symm

end

/-- The composition `(A => B) | ((A | (A => B)) => C)`, whose root has to wait for the inner one. -/
def staggered : Expr Unit :=
  comp (rule (const "A") "=>" (const "B"))
    (rule (comp (const "A") (rule (const "A") "=>" (const "B"))) "=>" (const "C"))

/-- Whichever way the steps go, `staggered` ends at `A => C`. -/
theorem staggered_ends : staggered.Ground ∧
    ReflTransGen Rewrites staggered (rule (const "A") "=>" (const "C")) ∧
      ∀ u, ReflTransGen Rewrites staggered u → (∀ v, ¬ u.Rewrites v) →
        u.same (rule (const "A") "=>" (const "C") : Expr Unit) = true := by
  obtain ⟨-, n, hreach, -, hunique, hreduce⟩ := rewriting_terminates_confluent (t := staggered) rfl
  have hn : some n = some (rule (const "A") "=>" (const "C")) :=
    (hreduce 3 (by decide)).symm.trans (by decide +kernel)
  obtain rfl := Option.some.inj hn
  exact ⟨rfl, hreach, hunique⟩

end Expr

end RuleProver
