import RuleProver.Proofs.GivenNames

/-!
# Showing an object by its name again

The arguments of a directive have their names and then their numerals replaced. In what is
answered, nests of successors are first turned into decimal notation, and then an object that is
still what its name stood for is shown by the name. An object that holds a number is no longer what
its name stood for by then: it has been rewritten in between. So an argument that comes back
unchanged is shown as it was written exactly if no name in it stands for an object with a zero
inside.

## Main results

* `Expr.toDecimals_same_iff` — decimal notation changes exactly the expressions with a zero
* `Aliases.restore_toDecimals_expand_same_iff` — when replacing and restoring names is no change
* `Session.shown_as_written_iff` — the same, for the names that definitions give
* `Session.shown_as_numeral` — a name that is not shown again
-/

namespace RuleProver

/-! ## Decimal notation -/

namespace Text

theorem digitValue?_of_isDigit {c : Char} (h : c.isDigit = true) :
    digitValue? c = some (c.toNat - '0'.toNat) := by
  have hzeros : zeroDigits = 0x30 :: zeroDigits.tail := rfl
  have hleast : 0x30 ≤ c.toNat := (Char.isDigit_iff_toNat.mp h).1
  have hmost : c.toNat ≤ 0x39 := (Char.isDigit_iff_toNat.mp h).2
  rw [digitValue?, hzeros, List.find?_cons_of_pos (by simp [hleast, hmost])]
  rfl

theorem isDigit_of_isDigit {c : Char} (h : c.isDigit = true) : isDigit c = true := by
  rw [isDigit, isDecimalDigit, digitValue?_of_isDigit h]
  rfl

theorem isNumeral_decimal (n : Nat) : isNumeral (decimal n) = true := by
  have hdigits : (decimalDigits n).all isDigit = true := by
    rw [List.all_eq_true]
    intro c hc
    exact isDigit_of_isDigit (Nat.isDigit_of_mem_toDigits (by decide) (by decide) hc)
  have hne : (decimalDigits n).isEmpty = false := List.isEmpty_eq_false_iff.mpr Nat.toDigits_ne_nil
  rw [isNumeral, decimal, String.toList_ofList, hdigits, hne]
  rfl

theorem decimal_ne {name : String} (h : isNumeral name = false) (n : Nat) : decimal n ≠ name := by
  rintro rfl
  rw [isNumeral_decimal] at h
  cases h

theorem not_isNumeral_zero : isNumeral "zero" = false := by decide

end Text

namespace Expr

variable {α : Type}

/-- A nest of successors ends in a zero. -/
theorem zero_mem_constants {t : Expr α} {n : Nat} (h : t.successorDepth? = some n) :
    "zero" ∈ t.constants := by
  fun_induction successorDepth? t generalizing n with
  | case1 m => simp
  | case2 m t ih =>
    obtain ⟨k, hk, -⟩ := Option.map_eq_some_iff.mp h
    rw [constants_node rfl, List.flatMap_singleton]
    exact ih hk
  | case3 => cases h

theorem successorDepth?_eq_none {t : Expr α} (h : "zero" ∉ t.constants) :
    t.successorDepth? = none :=
  Option.eq_none_iff_forall_ne_some.mpr fun _ hn => h (zero_mem_constants hn)

variable [Inhabited α]

theorem toDecimals_hole (m : α) (x : String) : (Expr.hole m x).toDecimals = .hole m x := by
  rw [toDecimals]

theorem toDecimals_of_depth {m : α} {h : Head} {cs : List (Expr α)} {n : Nat}
    (hn : (Expr.node m h cs).successorDepth? = some n) :
    (Expr.node m h cs).toDecimals = .node m (.term (Text.decimal n)) [] := by
  rw [toDecimals, hn]

theorem toDecimalsAll_eq_map (cs : List (Expr α)) : toDecimalsAll cs = cs.map toDecimals := by
  induction cs with
  | nil => rw [toDecimalsAll, List.map_nil]
  | cons c cs ih => rw [toDecimalsAll, ih, List.map_cons]

theorem toDecimals_node {m : α} {h : Head} {cs : List (Expr α)}
    (hn : (Expr.node m h cs).successorDepth? = none) :
    (Expr.node m h cs).toDecimals = .node m h (cs.map toDecimals) := by
  rw [toDecimals, hn, ← toDecimalsAll_eq_map]

@[simp] theorem mark_toDecimals (t : Expr α) : t.toDecimals.mark = t.mark := by
  cases t with
  | hole m x => rw [toDecimals_hole]
  | node m h cs =>
    cases hn : (Expr.node m h cs).successorDepth? with
    | none => rw [toDecimals_node hn, mark, mark]
    | some n => rw [toDecimals_of_depth hn, mark, mark]

/-- A constant that is no numeral was one before. -/
theorem constant?_of_toDecimals {t : Expr α} {name : String} (hname : Text.isNumeral name = false)
    (h : t.toDecimals.constant? = some name) : t.constant? = some name := by
  cases t with
  | hole m x => rwa [toDecimals_hole] at h
  | node m hd cs =>
    cases hn : (Expr.node m hd cs).successorDepth? with
    | none =>
      rw [toDecimals_node hn, constant?_eq_some_iff] at h
      obtain ⟨_, h⟩ := h
      rw [node.injEq, List.map_eq_nil_iff] at h
      obtain ⟨-, rfl, rfl⟩ := h
      rfl
    | some n =>
      rw [toDecimals_of_depth hn] at h
      exact absurd (Option.some.inj h) (Text.decimal_ne hname n)

/-- Without a zero there is nothing to turn into decimal notation. -/
theorem toDecimals_eq_self {t : Expr α} (h : "zero" ∉ t.constants) : t.toDecimals = t := by
  induction t using induction_on_constants with
  | hole m x => exact toDecimals_hole m x
  | const m name => exact toDecimals_node (successorDepth?_eq_none h)
  | node m hd cs hc ih =>
    rw [toDecimals_node (successorDepth?_eq_none h)]
    rw [constants_node hc, List.mem_flatMap] at h
    have hcs : ∀ c ∈ cs, c.toDecimals = id c :=
      fun c hc => ih c hc fun hzero => h ⟨c, hc, hzero⟩
    rw [List.map_congr_left hcs, List.map_id]

/-- In decimal notation there are no zeros left. -/
theorem zero_not_mem_constants_toDecimals (t : Expr α) : "zero" ∉ t.toDecimals.constants := by
  induction t with
  | hole m x => simp [toDecimals_hole]
  | node m hd cs ih =>
    cases hn : (Expr.node m hd cs).successorDepth? with
    | some n =>
      rw [toDecimals_of_depth hn, constants_const, List.mem_singleton]
      exact (Text.decimal_ne Text.not_isNumeral_zero n).symm
    | none =>
      rw [toDecimals_node hn]
      cases hc : (Expr.node m hd (cs.map toDecimals)).constant? with
      | some name =>
        obtain ⟨_, heq⟩ := constant?_eq_some_iff.mp hc
        rw [node.injEq, List.map_eq_nil_iff] at heq
        obtain ⟨-, rfl, rfl⟩ := heq
        rw [List.map_nil, constants_const, List.mem_singleton]
        rintro rfl
        cases hn
      | none =>
        rw [constants_node hc, List.flatMap_map, List.mem_flatMap]
        exact fun ⟨c, hc, hzero⟩ => ih c hc hzero

/-- **Decimal notation changes exactly the expressions with a zero.** -/
theorem toDecimals_same_iff {t : Expr α} : t.toDecimals.same t = true ↔ "zero" ∉ t.constants := by
  constructor
  · intro h
    rw [same_iff] at h
    rw [← constants_erase, ← h, constants_erase]
    exact t.zero_not_mem_constants_toDecimals
  · intro h
    rw [toDecimals_eq_self h]
    exact same_refl t

end Expr

/-! ## Restoring names -/

theorem Object.restoredName?_eq_some_iff {t : Object} {name : String} :
    t.restoredName? = some name ↔
      ∃ form, t.mark.expandedFrom = some (name, form) ∧ t.same form = true := by
  simp only [Object.restoredName?, Option.bind_eq_some_iff, Prod.exists,
    Option.ite_none_right_eq_some, Option.some.injEq]
  exact ⟨fun ⟨n, form, hfrom, hsame, heq⟩ => ⟨form, heq ▸ hfrom, hsame⟩,
    fun ⟨form, hfrom, hsame⟩ => ⟨name, form, hfrom, hsame, rfl⟩⟩

theorem Object.restoredName?_eq_none {t : Object} (h : t.mark.expandedFrom = none) :
    t.restoredName? = none := by
  rw [Object.restoredName?, h]
  rfl

theorem Object.mark_namedBy (u : Object) (name : String) :
    (u.namedBy name).mark = .mk (some (name, u.erase)) u.mark.goal := by
  cases u <;> rfl

theorem Object.erase_namedBy (u : Object) (name : String) : (u.namedBy name).erase = u.erase :=
  u.erase_withMark _

theorem Object.constants_namedBy (u : Object) (name : String) :
    (u.namedBy name).constants = u.constants :=
  u.constants_withMark _

namespace Aliases

variable {A : Aliases} {t o : Object}

theorem restoreAll_eq_map (cs : List Object) : restoreAll cs = cs.map restore := by
  induction cs with
  | nil => rw [restoreAll, List.map_nil]
  | cons c cs ih => rw [restoreAll, ih, List.map_cons]

theorem restore_of_restoredName? {name : String} (h : t.restoredName? = some name) :
    restore t = .node (.mk none t.mark.goal) (.term name) [] := by
  cases t with
  | hole m x => rw [restore, h, Expr.mark]
  | node m hd cs => rw [restore, h, Expr.mark]

theorem restore_hole {m : Note} {x : String} (h : Object.restoredName? (.hole m x) = none) :
    restore (.hole m x) = .hole m x := by
  rw [restore, h]

theorem restore_node {m : Note} {hd : Head} {cs : List Object}
    (h : Object.restoredName? (.node m hd cs) = none) :
    restore (.node m hd cs) = .node m hd (cs.map restore) := by
  rw [restore, h, restoreAll_eq_map]

theorem constant?_restore (h : t.restoredName? = none) : (restore t).constant? = t.constant? := by
  cases t with
  | hole m x => rw [restore_hole h]
  | node m hd cs =>
    rw [restore_node h]
    cases hd <;> cases cs <;> rfl

/-- The constants after names are replaced were there before, or come with a meaning. -/
theorem mem_constants_expand {y : String} (h : y ∈ (A.expand o).constants) :
    y ∈ o.constants ∨ ∃ x ∈ o.constants, ∃ u, A.get? x = some u ∧ y ∈ u.constants := by
  induction o using Expr.induction_on_constants with
  | hole m x =>
    rw [expand_hole] at h
    exact .inl h
  | const m x =>
    cases hx : A.get? x with
    | none =>
      rw [expand_of_get?_eq_none hx] at h
      exact .inl h
    | some u =>
      rw [expand_of_get? hx, Object.constants_namedBy] at h
      exact .inr ⟨x, by simp, u, hx, h⟩
  | node m hd cs hc ih =>
    rw [Expr.constants_node hc]
    have hc' : (Expr.node m hd (cs.map A.expand)).constant? = none :=
      Expr.constant?_eq_none_of_length (by simp) hc
    rw [expand_node hc, Expr.constants_node hc', List.flatMap_map, List.mem_flatMap] at h
    obtain ⟨c, hmem, h⟩ := h
    have hmono : ∀ x ∈ c.constants, x ∈ cs.flatMap Expr.constants :=
      fun x hx => List.mem_flatMap.mpr ⟨c, hmem, hx⟩
    rcases ih c hmem h with hy | ⟨x, hx, hu⟩
    · exact .inl (hmono y hy)
    · exact .inr ⟨x, hmono x hx, hu⟩

/-- A meaning is shown by its name again exactly if it has no zero. -/
theorem restore_toDecimals_namedBy_same_iff {x : String} {u : Object}
    (hnumeral : Text.isNumeral x = false) (hzero : x ≠ "zero") (m : Note) :
    (restore (u.namedBy x).toDecimals).same (Expr.node m (.term x) [] : Object) = true ↔
      "zero" ∉ u.constants := by
  have hfrom : (u.namedBy x).toDecimals.mark.expandedFrom = some (x, u.erase) := by
    rw [Expr.mark_toDecimals, Object.mark_namedBy]
    rfl
  have hsame : (u.namedBy x).toDecimals.same u.erase = true ↔ "zero" ∉ u.constants := by
    rw [← u.constants_namedBy x, ← Expr.toDecimals_same_iff, Expr.same_iff, Expr.same_iff,
      Expr.erase_unit, u.erase_namedBy x]
  constructor
  · intro hshown hu
    -- the object that is shown still has the root of `u`, which is no constant but zero
    have hnone : Object.restoredName? (u.namedBy x).toDecimals = none := by
      rw [Option.eq_none_iff_forall_ne_some]
      intro name hname
      obtain ⟨form, hform, hmatch⟩ := Object.restoredName?_eq_some_iff.mp hname
      rw [hfrom, Option.some.injEq, Prod.mk.injEq] at hform
      rw [← hform.2] at hmatch
      exact hsame.mp hmatch hu
    have hconst := Expr.constant?_eq_of_same hshown
    rw [constant?_restore hnone] at hconst
    obtain ⟨m', heq⟩ := Expr.constant?_eq_some_iff.mp (Expr.constant?_of_toDecimals hnumeral hconst)
    rw [← u.constants_namedBy x, heq, Expr.constants_const, List.mem_singleton] at hu
    exact hzero hu.symm
  · intro hu
    have hname : Object.restoredName? (u.namedBy x).toDecimals = some x :=
      Object.restoredName?_eq_some_iff.mpr ⟨_, hfrom, hsame.mpr hu⟩
    rw [restore_of_restoredName? hname, Expr.same_iff]
    rfl

/-- **Names and numbers that are replaced and restored**: an object without numerals and zeros comes
back exactly if none of its names stands for an object with a zero. -/
theorem restore_toDecimals_expand_same_iff
    (ho : ∀ x ∈ o.constants, Text.isNumeral x = false ∧ x ≠ "zero")
    (hm : o.Marked fun m => m.expandedFrom = none) :
    (restore (A.expand o).toDecimals).same o = true ↔
      ∀ x ∈ o.constants, ∀ u, A.get? x = some u → "zero" ∉ u.constants := by
  induction o using Expr.induction_on_constants with
  | hole m x =>
    have hnone := Object.restoredName?_eq_none (t := .hole m x) hm.root
    rw [expand_hole, Expr.toDecimals_hole, restore_hole hnone]
    simp [Expr.same_refl]
  | const m x =>
    rw [Expr.constants_const, List.forall_mem_singleton] at ho ⊢
    cases hx : A.get? x with
    | none =>
      have hzero : "zero" ∉ (Expr.node m (.term x) [] : Object).constants := by
        rw [Expr.constants_const, List.mem_singleton]
        exact ho.2.symm
      rw [expand_of_get?_eq_none hx, Expr.toDecimals_eq_self hzero,
        restore_node (Object.restoredName?_eq_none hm.root)]
      simp [Expr.same_refl]
    | some u =>
      rw [expand_of_get? hx, restore_toDecimals_namedBy_same_iff ho.1 ho.2]
      simp
  | node m hd cs hc ih =>
    obtain ⟨hroot, hchildren⟩ := Expr.marked_node.mp hm
    have hnone : ∀ hd' (cs' : List Object), Object.restoredName? (.node m hd' cs') = none :=
      fun _ _ => Object.restoredName?_eq_none hroot
    rw [expand_node hc]
    cases hn : (Expr.node m hd (cs.map A.expand)).successorDepth? with
    | some n =>
      -- a nest of successors whose zero comes with the meaning of a name
      rw [Expr.toDecimals_of_depth hn, restore_node (hnone _ _), List.map_nil]
      have hzero := Expr.zero_mem_constants hn
      rw [← expand_node hc] at hzero
      rcases mem_constants_expand hzero with hzero | ⟨x, hx, u, hget, hzero⟩
      · exact absurd rfl (ho _ hzero).2
      · refine iff_of_false (fun hsame => ?_) fun hall => hall x hx u hget hzero
        have hconst := Expr.constant?_eq_of_same hsame
        rw [hc] at hconst
        cases hconst
    | none =>
      rw [Expr.toDecimals_node hn, restore_node (hnone _ _), Expr.same_iff, Expr.erase_node,
        Expr.erase_node, Expr.constants_node hc]
      rw [Expr.constants_node hc] at ho
      simp only [Expr.node.injEq, true_and, List.map_map, List.map_inj_left, Function.comp_apply,
        List.mem_flatMap] at ho ⊢
      simp only [← Expr.same_iff]
      constructor
      · rintro h x ⟨c, hcs, hx⟩
        exact (ih c hcs (fun x hx => ho x ⟨c, hcs, hx⟩) (hchildren c hcs)).mp (h c hcs) x hx
      · intro h c hcs
        exact (ih c hcs (fun x hx => ho x ⟨c, hcs, hx⟩) (hchildren c hcs)).mpr
          fun x hx => h x ⟨c, hcs, hx⟩

end Aliases

/-! ## Names from definitions -/

namespace Expr

variable {α : Type} [Inhabited α]

theorem constants_successors (n : Nat) : (successors n : Expr α).constants = ["zero"] := by
  induction n with
  | zero => exact constants_const default "zero"
  | succ n ih =>
    have hnode : (successors (n + 1) : Expr α).constants =
        [(successors n : Expr α)].flatMap constants := constants_node rfl
    rw [hnode, List.flatMap_singleton, ih]

/-- Where all numerals are replaced, none is left. -/
theorem not_isNumeral_of_toSuccessors {t u : Expr α} (h : t.toSuccessors = .ok u) :
    ∀ y ∈ u.constants, Text.isNumeral y = false := by
  induction t using induction_on_constants generalizing u with
  | hole m x =>
    rw [toSuccessors_hole] at h
    cases h
    simp
  | const m name =>
    obtain ⟨hname, rfl⟩ | ⟨n, -, -, rfl⟩ := toSuccessors_const_cases h
    · rwa [constants_const, List.forall_mem_singleton]
    · rw [constants_withMark, constants_successors, List.forall_mem_singleton]
      exact Text.not_isNumeral_zero
  | node m hd cs hc ih =>
    rw [toSuccessors_node hc, map_eq_ok_iff] at h
    obtain ⟨us, hus, rfl⟩ := h
    have hlength := (toSuccessorsAll_eq_ok_iff.mp hus).length_eq
    have hmem : ∀ u ∈ us, ∀ y ∈ u.constants, Text.isNumeral y = false :=
      forall_mem_of_toSuccessorsAll hus fun c hc u hu => ih c hc hu
    rw [constants_node (constant?_eq_none_of_length hlength.symm hc)]
    intro y hy
    obtain ⟨u, hu, hy⟩ := List.mem_flatMap.mp hy
    exact hmem u hu y hy

/-- Without numerals there is nothing to replace. -/
theorem toSuccessors_eq_self {t : Expr α} (h : ∀ y ∈ t.constants, Text.isNumeral y = false) :
    t.toSuccessors = .ok t := by
  induction t using induction_on_constants with
  | hole m x => exact toSuccessors_hole m x
  | const m name => exact toSuccessors_of_not_isNumeral (h name (by simp)) m
  | node m hd cs hc ih =>
    rw [constants_node hc] at h
    have hcs : toSuccessorsAll cs = .ok cs := by
      rw [toSuccessorsAll_eq_ok_iff, List.forall₂_same]
      exact fun c hcs => ih c hcs fun y hy => h y (List.mem_flatMap.mpr ⟨c, hcs, hy⟩)
    rw [toSuccessors_node hc, hcs]
    rfl

end Expr

namespace Session

variable {S : Session} {o : Object} {ds : List (String × Object)} {directive : String}

/-- A session in which definitions have been carried out one after the other. -/
def defining [HoleOrder] (ds : List (String × Object)) : Session :=
  initial.run (ds.map fun d => ⟨"Define", [.const d.1, d.2]⟩)

/-- No meaning of a name has a numeral. -/
def Numberless (S : Session) : Prop :=
  ∀ x u, S.aliases.current.get? x = some u → ∀ y ∈ u.constants, Text.isNumeral y = false

theorem Numberless.process_define [HoleOrder] (hS : S.Numberless) (horder : S.order = initial.order)
    {n : String} (hn : Text.isNumeral n = false) (t : Object) :
    (S.process ⟨"Define", [.const n, t]⟩).1.Numberless := by
  rcases aliases_process_define horder hn default t with ⟨f, hprocess⟩ | ⟨u, hu, haliases⟩
  · have heq : (S.process ⟨"Define", [.const n, t]⟩).1 = S := congrArg Prod.fst hprocess
    rwa [heq]
  · intro x v hx
    have hget : (S.process ⟨"Define", [.const n, t]⟩).1.aliases.current.get? x =
        (S.aliases.current.define n u).get? x := congrArg (fun h => h.current.get? x) haliases
    rw [hget, Aliases.get?_define] at hx
    split at hx
    · cases hx
      exact Expr.not_isNumeral_of_toSuccessors hu
    · exact hS x v hx

theorem intact_defining [HoleOrder] (hds : ∀ d ∈ ds, Text.isNumeral d.1 = false) :
    (defining ds).Intact ∧ (defining ds).Numberless := by
  have hrun : ∀ S : Session, S.Intact → S.Numberless →
      (S.run (ds.map fun d => ⟨"Define", [.const d.1, d.2]⟩)).Intact ∧
        (S.run (ds.map fun d => ⟨"Define", [.const d.1, d.2]⟩)).Numberless := by
    induction ds with
    | nil => exact fun S hS hnumberless => ⟨hS, hnumberless⟩
    | cons d ds ih =>
      intro S hS hnumberless
      obtain ⟨hd, hds⟩ := List.forall_mem_cons.mp hds
      exact ih hds _ ((processed hS.order _).intact hS)
        (hnumberless.process_define hS.order hd d.2)
  exact hrun initial intact_initial nofun

theorem present_eq (hS : S.order = initial.order) (r : Result) :
    S.present false r = r.map fun o => Aliases.restore o.toDecimals := by
  rw [present, hS]
  rfl

/-- **An argument that comes back unchanged is shown as it was written exactly if none of its names
stands for an object with a zero**, for the names that definitions give and for a directive that
does nothing more to its arguments than to replace names and numerals. -/
theorem shown_as_written_iff [HoleOrder] (hds : ∀ d ∈ ds, Text.isNumeral d.1 = false)
    (hdirective : directive ∉ ["Define", "Axiom", "Functorial", "Done", "Use"])
    (ho : ∀ x ∈ o.constants, Text.isNumeral x = false ∧ x ≠ "zero")
    (hm : o.Marked fun m => m.expandedFrom = none) :
    ∃ o', (defining ds).prepare directive ⟨[o], false⟩ (defining ds).order =
        (defining ds, .ok ⟨[o'], false⟩) ∧
      ∀ message, ((defining ds).present false ⟨o', message⟩).object.same o = true ↔
        ∀ x ∈ o.constants, ∀ u, (defining ds).aliases.current.get? x = some u →
          "zero" ∉ u.constants := by
  obtain ⟨hS, hnumberless⟩ := intact_defining hds
  simp only [List.mem_cons, List.not_mem_nil, or_false, not_or] at hdirective
  obtain ⟨hdefine, hposit, hfunctorial, hdone, huse⟩ := hdirective
  -- what names stand for has no numerals left to replace
  have hread : (defining ds).aliases.current.read o =
      .ok ((defining ds).aliases.current.expand o) := by
    refine Expr.toSuccessors_eq_self fun y hy => ?_
    rcases Aliases.mem_constants_expand hy with hy | ⟨x, -, u, hu, hy⟩
    · exact (ho y hy).1
    · exact hnumberless x u hu y hy
  have hargs : Expr.toSuccessorsAll [(defining ds).aliases.current.expand o] =
      .ok [(defining ds).aliases.current.expand o] :=
    Expr.toSuccessorsAll_eq_ok_iff.mpr (.cons hread .nil)
  refine ⟨(defining ds).aliases.current.expand o, ?_, fun message => ?_⟩
  · rw [prepare_eq hS.order hdone huse, prepareNames_of_ne hdefine hposit hfunctorial,
      List.map_cons, List.map_nil, hargs]
    rfl
  · rw [present_eq hS.order]
    exact Aliases.restore_toDecimals_expand_same_iff ho hm

/-- Definitions of a name for an expression and of a name for a number. -/
def mixed : List (String × Object) := [("p", .term "f" [.const "a"]), ("two", .const "2")]

/-- The name of an expression is shown again, though there is a name for a number. -/
theorem shown_as_written_beside_numeral :
    ∃ o', (defining mixed).prepare "Reduce" ⟨[.const "p"], false⟩ (defining mixed).order =
        (defining mixed, .ok ⟨[o'], false⟩) ∧
      ∀ message, ((defining mixed).present false ⟨o', message⟩).object.same
        (.const "p" : Object) = true := by
  have hds : ∀ d ∈ mixed, Text.isNumeral d.1 = false := by decide
  have hreduce : "Reduce" ∉ ["Define", "Axiom", "Functorial", "Done", "Use"] := by decide
  have hconstants : (.const "p" : Object).constants = ["p"] := Expr.constants_const default "p"
  have ho : ∀ x ∈ (.const "p" : Object).constants, Text.isNumeral x = false ∧ x ≠ "zero" := by
    rw [hconstants]
    decide
  have hm : (.const "p" : Object).Marked fun m => m.expandedFrom = none :=
    Expr.marked_node.mpr ⟨rfl, nofun⟩
  obtain ⟨o', hprepare, hshown⟩ := shown_as_written_iff hds hreduce ho hm
  refine ⟨o', hprepare, fun message => (hshown message).mpr ?_⟩
  rw [hconstants, List.forall_mem_singleton]
  intro u hu
  cases hu
  decide

/-- The name of a number is shown as the number. -/
theorem shown_as_numeral :
    ∃ o', (defining mixed).prepare "Reduce" ⟨[.const "two"], false⟩ (defining mixed).order =
        (defining mixed, .ok ⟨[o'], false⟩) ∧
      ∀ message, ((defining mixed).present false ⟨o', message⟩).object.same
          (.const "2" : Object) = true ∧
        ((defining mixed).present false ⟨o', message⟩).object.same
          (.const "two" : Object) = false :=
  ⟨_, rfl, fun _ => ⟨rfl, rfl⟩⟩

end Session

end RuleProver
