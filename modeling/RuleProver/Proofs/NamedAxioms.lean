import RuleProver.Proofs.GivenNames

/-!
# What the name of an axiom stands for

`Axiom name, t` gives the name to `t` as it was written, and adds to the context what `t` reads as
once its own names and numerals are replaced. Replacing the new name puts `t` in its place, and the
names inside `t` are not replaced again. So the name reads as the axiom exactly if every name with a
meaning that occurs in `t` would read as this meaning without having it.

## Main definitions

* `Expr.successorForm` — an expression without marks, with successors for numerals

## Main results

* `Aliases.successorForm_eq_read_iff` — when names make no difference to what is read
* `Session.posited_name_read_iff` — when the name of an axiom reads as the axiom
* `Session.posited_name_unread` — an axiom with a name that reads as something else
-/

namespace RuleProver

/-! ## Numerals without marks -/

namespace Expr

variable {α : Type} [Inhabited α]

/-- The form of an expression, with successors in place of numerals. -/
def successorForm (t : Expr α) : Except Fault (Expr Unit) := t.toSuccessors.map erase

/-- Only the mark at the root is exchanged. -/
theorem toSuccessors_withMark (t : Expr α) (m : α) :
    (t.withMark m).toSuccessors = t.toSuccessors.map (withMark m) := by
  cases t using induction_on_constants with
  | hole m' x =>
    rw [withMark, toSuccessors_hole, toSuccessors_hole]
    rfl
  | const m' name =>
    rw [withMark, toSuccessors, toSuccessors]
    cases nameValue name with
    | error f => rfl
    | ok n? =>
      cases n? with
      | none => rfl
      | some n => cases n <;> rfl
  | node m' h cs hc =>
    have hc' : (Expr.node m h cs).constant? = none := constant?_eq_none_of_length rfl hc
    rw [withMark, toSuccessors_node hc, toSuccessors_node hc']
    cases toSuccessorsAll cs <;> rfl

/-- The form does not depend on marks at the root. -/
@[simp] theorem successorForm_withMark (t : Expr α) (m : α) :
    (t.withMark m).successorForm = t.successorForm := by
  rw [successorForm, successorForm, toSuccessors_withMark]
  cases t.toSuccessors with
  | error f => rfl
  | ok u => exact congrArg Except.ok (erase_withMark u m)

theorem successorForm_of_toSuccessors {t u : Expr α} (h : t.toSuccessors = .ok u) :
    t.successorForm = .ok u.erase := by
  rw [successorForm, h]
  rfl

/-- The forms of the members of a list, one by one. -/
theorem map_toSuccessorsAll_eq_ok_iff {ts : List (Expr α)} {fs : List (Expr Unit)} :
    (toSuccessorsAll ts).map (List.map erase) = .ok fs ↔
      List.Forall₂ (fun t f => t.successorForm = .ok f) ts fs := by
  simp only [map_eq_ok_iff, toSuccessorsAll_eq_ok_iff, successorForm]
  induction ts generalizing fs with
  | nil => simp [List.forall₂_nil_left_iff, eq_comm]
  | cons t ts ih =>
    simp only [List.forall₂_cons_left_iff, ← ih]
    constructor
    · rintro ⟨_, ⟨u, us, hu, hus, rfl⟩, rfl⟩
      exact ⟨u.erase, us.map erase, ⟨u, hu, rfl⟩, ⟨us, hus, rfl⟩, rfl⟩
    · rintro ⟨_, _, ⟨u, hu, rfl⟩, ⟨us, hus, rfl⟩, rfl⟩
      exact ⟨u :: us, ⟨u, us, hu, hus, rfl⟩, rfl⟩

theorem successorForm_node {m : α} {h : Head} {cs : List (Expr α)}
    (ht : (Expr.node m h cs).constant? = none) :
    (Expr.node m h cs).successorForm =
      ((toSuccessorsAll cs).map (List.map erase)).map (.node () h) := by
  rw [successorForm, toSuccessors_node ht]
  cases toSuccessorsAll cs with
  | error f => rfl
  | ok us => exact congrArg Except.ok (erase_node m h us)

end Expr

/-! ## Names that make no difference -/

namespace Aliases

variable {A : Aliases} {t u : Object}

/-- A name that stands for what it would be without a meaning. -/
def Idle (A : Aliases) (x : String) : Prop :=
  ∀ u, A.get? x = some u → u.successorForm = (Expr.const x : Object).successorForm

/-- An expression has the form of what it reads as exactly if its names make no difference. -/
theorem successorForm_eq_read_iff (h : A.read t = .ok u) :
    t.successorForm = .ok u.erase ↔ ∀ x ∈ t.constants, A.Idle x := by
  rw [read] at h
  induction t using Expr.induction_on_constants generalizing u with
  | hole m x =>
    rw [expand_hole] at h
    simp [Expr.successorForm_of_toSuccessors h]
  | const m x =>
    have hconst : (Expr.node m (.term x) []).successorForm =
        (Expr.const x : Object).successorForm :=
      (Expr.const x : Object).successorForm_withMark m
    rw [Expr.constants_const, List.forall_mem_singleton, Idle]
    cases hget : A.get? x with
    | none =>
      rw [expand_of_get?_eq_none hget] at h
      simp [Expr.successorForm_of_toSuccessors h]
    | some v =>
      rw [expand_of_get? hget] at h
      have hv : v.successorForm = .ok u.erase := by
        rw [← v.successorForm_withMark]
        exact Expr.successorForm_of_toSuccessors h
      rw [hconst, ← hv]
      simp [eq_comm]
  | node m hd cs hc ih =>
    have hmap : (Expr.node m hd (cs.map A.expand)).constant? = none :=
      Expr.constant?_eq_none_of_length (by simp) hc
    rw [expand_node hc, Expr.toSuccessors_node hmap, map_eq_ok_iff] at h
    obtain ⟨us, hus, rfl⟩ := h
    rw [Expr.toSuccessorsAll_eq_ok_iff, List.forall₂_map_left_iff] at hus
    rw [Expr.successorForm_node hc, Expr.erase_node, Expr.constants_node hc]
    have hforms : List.Forall₂ (fun c f => c.successorForm = .ok f) cs (us.map Expr.erase) ↔
        ∀ c ∈ cs, ∀ x ∈ c.constants, A.Idle x := by
      clear hc hmap
      induction hus with
      | nil => simp
      | cons hu _ ihs =>
        rw [List.map_cons, List.forall₂_cons, List.forall_mem_cons,
          ih _ List.mem_cons_self hu, ihs fun c hc => ih c (List.mem_cons_of_mem _ hc)]
    rw [← Expr.map_toSuccessorsAll_eq_ok_iff] at hforms
    simp only [map_eq_ok_iff, Expr.node.injEq, true_and, exists_eq_right] at hforms ⊢
    rw [hforms]
    simp only [List.mem_flatMap]
    constructor
    · rintro h x ⟨c, hc, hx⟩
      exact h c hc x hx
    · intro h c hc x hx
      exact h x ⟨c, hc, hx⟩

end Aliases

/-! ## Named axioms -/

namespace Session

variable {S S' : Session} {name : String} {m : Note} {t : Object} {a : Answer}

/-- How the arguments of an axiom with a name are prepared. -/
theorem prepareNames_posit (h : History Aliases) (hname : Symbol.isName name = true) (m : Note)
    (t : Object) :
    prepareNames h "Axiom" [.node m (.term name) [], t] =
      (h.push (h.current.define name t), [(h.current.define name t).expand t]) := by
  have hleading : Aliases.leadingName? [.node m (.term name) [], t] = some (name, t, [t]) :=
    if_pos hname
  rw [prepareNames, nameLeading, if_pos (.inl rfl), hleading]
  rfl

/-- An axiom with a name gives the name to the axiom as it was written, and the axiom is what it
reads as. -/
theorem process_posit [HoleOrder] (hS : S.order = initial.order) (hname : Symbol.isName name = true)
    (h : S.process ⟨"Axiom", [.node m (.term name) [], t]⟩ = (S', .ok a)) :
    ∃ u, S'.aliases.current = S.aliases.current.define name t ∧
      S'.aliases.current.read t = .ok u ∧
      S'.goals.current.axioms = S.goals.current.axioms ++ [(some "=>", u)] := by
  have hprepare : S.prepare "Axiom" ⟨[.node m (.term name) [], t], false⟩ S.order = _ :=
    prepare_eq hS (by decide) (by decide) _
  rw [prepareNames_posit _ hname] at hprepare
  cases hu : (S.aliases.current.define name t).read t with
  | error f =>
    rw [Aliases.read] at hu
    rw [Expr.toSuccessorsAll, hu] at hprepare
    rw [process] at h
    dsimp only at h
    rw [hprepare] at h
    cases h
  | ok u =>
    have hargs : Expr.toSuccessorsAll [(S.aliases.current.define name t).expand t] = .ok [u] :=
      Expr.toSuccessorsAll_eq_ok_iff.mpr (.cons hu .nil)
    rw [hargs] at hprepare
    obtain ⟨haliases, hgoals⟩ := process_of_prepare
      (d := ⟨"Axiom", [.node m (.term name) [], t]⟩) hS hprepare (v := .posit) rfl
    rw [h] at haliases hgoals
    have hcurrent : S'.aliases.current = S.aliases.current.define name t :=
      congrArg History.current haliases
    refine ⟨u, hcurrent, hcurrent ▸ hu, ?_⟩
    exact congrArg (fun goals => goals.current.axioms) hgoals

/-- **The name of an axiom reads as the axiom exactly if the names that occur in the axiom make no
difference.** -/
theorem posited_name_read_iff [HoleOrder] (hS : S.order = initial.order)
    (hname : Symbol.isName name = true) (hfresh : name ∉ t.constants)
    (h : S.process ⟨"Axiom", [.node m (.term name) [], t]⟩ = (S', .ok a)) :
    ∃ u, S'.goals.current.axioms = S.goals.current.axioms ++ [(some "=>", u)] ∧
      ((∃ w, S'.aliases.current.read (.const name) = .ok w ∧ w.same u = true) ↔
        ∀ x ∈ t.constants, S.aliases.current.Idle x) := by
  obtain ⟨u, hcurrent, hread, haxioms⟩ := process_posit hS hname h
  refine ⟨u, haxioms, ?_⟩
  -- the name reads as the axiom does when its own names are left alone
  have hget : S'.aliases.current.get? name = some t := by
    rw [hcurrent, Aliases.get?_define, if_pos rfl]
  have hname : (∃ w, S'.aliases.current.read (.const name) = .ok w ∧ w.same u = true) ↔
      t.successorForm = .ok u.erase := by
    rw [Aliases.read, Expr.const, Aliases.expand_of_get? hget,
      ← t.successorForm_withMark (.mk (some (name, t.erase)) t.mark.goal), Expr.successorForm,
      map_eq_ok_iff]
    simp only [Expr.same_iff, Object.namedBy]
  rw [hname, Aliases.successorForm_eq_read_iff hread]
  refine forall₂_congr fun x hx => ?_
  have hne : x ≠ name := fun heq => hfresh (heq ▸ hx)
  rw [Aliases.Idle, Aliases.Idle, hcurrent, Aliases.get?_define, if_neg hne]

/-- A session in which `b` stands for `a`. -/
def calledB : Session := initial.run [⟨"Define", [.const "b", .const "a"]⟩]

/-- The expression `f(c, 2)`. -/
def numbered : Object := .node default (.term "f") [.const "c", .const "2"]

/-- The name of an axiom with a numeral reads as the axiom. -/
theorem posited_name_read_of_numeral :
    ∃ S' a u w, calledB.process ⟨"Axiom", [.const "n", numbered]⟩ = (S', .ok a) ∧
      S'.goals.current.axioms = calledB.goals.current.axioms ++ [(some "=>", u)] ∧
      S'.aliases.current.read (.const "n") = .ok w ∧ w.same u = true := by
  have horder : calledB.order = initial.order := rfl
  have hconstants : numbered.constants = ["c", "2"] := by
    rw [numbered, Expr.constants_node rfl]
    rfl
  have hget : ∀ x ∈ ["c", "2"], calledB.aliases.current.get? x = none := by decide
  have hidle : ∀ x ∈ numbered.constants, calledB.aliases.current.Idle x := by
    rw [hconstants]
    intro x hx u hu
    cases (hget x hx).symm.trans hu
  have hfresh : "n" ∉ numbered.constants := by
    rw [hconstants]
    decide
  obtain ⟨S', a, h⟩ : ∃ S' a, calledB.process ⟨"Axiom", [.const "n", numbered]⟩ = (S', .ok a) :=
    ⟨_, _, rfl⟩
  obtain ⟨u, haxioms, hread⟩ := posited_name_read_iff horder (by decide) hfresh h
  obtain ⟨w, hw, hsame⟩ := hread.mpr hidle
  exact ⟨S', a, u, w, h, haxioms, hw, hsame⟩

/-- The axiom is `a`, and its name reads as `b`. -/
theorem posited_name_unread :
    ∃ S' a u w, calledB.process ⟨"Axiom", [.const "n", .const "b"]⟩ = (S', .ok a) ∧
      S'.goals.current.axioms = calledB.goals.current.axioms ++ [(some "=>", u)] ∧
      S'.aliases.current.read (.const "n") = .ok w ∧ w.same u = false :=
  ⟨_, _, _, _, rfl, rfl, rfl, rfl⟩

end Session

end RuleProver
