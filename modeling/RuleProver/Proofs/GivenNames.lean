import RuleProver.Proofs.FailedLines
import RuleProver.Proofs.MarkOrigins

/-!
# Giving names and reading them

A directive that is neither `Use` nor `Done` has its arguments prepared in two steps: names are
replaced by what they stand for, and then decimal constants by successors. Before that, a leading
name of `Axiom` or `Functorial` is given to the last argument. `Define` gives a name when it is
carried out, so to an argument that has been prepared already.

No other directive changes what names stand for, and none changes more than one of them.

## Main definitions

* `Aliases.read` — what an argument becomes when it is prepared
* `Directive.Names` — a directive gives a name

## Main results

* `Session.prepare_eq` — how arguments are prepared
* `Session.aliases_process_define` — carrying out `Define`
* `Session.aliases_process` — the aliases stay, or one name is given
-/

namespace RuleProver

/-! ## Looking up names -/

namespace Aliases

variable {A : Aliases} {name x : String}

/-- The name that was given last stands for what it was given to, and the others for what they stood
for before. -/
theorem get?_define (A : Aliases) (name : String) (t : Object) (x : String) :
    (A.define name t).get? x = if x = name then some t else A.get? x := by
  have hkept := lookup_filter (fun y => decide (y ≠ name)) A x
  rw [get?, get?, define, List.lookup_append, hkept]
  by_cases hx : x = name
  · simp [hx]
  · have hne : (x == name) = false := by simpa using hx
    simp [hx, List.lookup_cons, hne]

@[simp] theorem expand_hole (A : Aliases) (m : Note) (y : String) :
    A.expand (.hole m y) = .hole m y := by
  rw [expand]

theorem expand_of_get? {t : Object} (h : A.get? x = some t) (m : Note) :
    A.expand (.node m (.term x) []) = t.namedBy x := by
  rw [expand, h]

theorem expand_of_get?_eq_none (h : A.get? x = none) (m : Note) :
    A.expand (.node m (.term x) []) = .node m (.term x) [] := by
  rw [expand, h]

theorem expand_node {m : Note} {h : Head} {cs : List Object}
    (ht : (Expr.node m h cs).constant? = none) :
    A.expand (.node m h cs) = .node m h (cs.map A.expand) := by
  rw [expand, expandAll_eq_map]
  rintro name rfl rfl
  cases ht

end Aliases

/-! ## Numerals -/

namespace Expr

variable {α : Type} [Inhabited α]

theorem toSuccessors_hole (m : α) (x : String) :
    (Expr.hole m x).toSuccessors = .ok (.hole m x) := by
  rw [toSuccessors]
  rfl

theorem toSuccessors_node {m : α} {h : Head} {cs : List (Expr α)}
    (ht : (Expr.node m h cs).constant? = none) :
    (Expr.node m h cs).toSuccessors = (toSuccessorsAll cs).map (.node m h) := by
  rw [toSuccessors]
  · cases toSuccessorsAll cs <;> rfl
  · rintro name rfl rfl
    cases ht

theorem toSuccessors_of_not_isNumeral {name : String} (h : Text.isNumeral name = false) (m : α) :
    (Expr.node m (.term name) []).toSuccessors = .ok (.node m (.term name) []) := by
  rw [toSuccessors, nameValue, h]
  rfl

theorem toSuccessors_of_readNat? {name : String} {n : Nat} (h : Text.isNumeral name = true)
    (hn : Text.readNat? name = some n) (m : α) :
    (Expr.node m (.term name) []).toSuccessors = .ok ((successors n).withMark m) := by
  rw [toSuccessors, nameValue, if_pos h, hn]
  rfl

/-- A constant stays as it is, or it is a numeral with a value. -/
theorem toSuccessors_const_cases {m : α} {name : String} {u : Expr α}
    (h : (Expr.node m (.term name) []).toSuccessors = .ok u) :
    (Text.isNumeral name = false ∧ u = .node m (.term name) []) ∨
      ∃ n, Text.isNumeral name = true ∧ Text.readNat? name = some n ∧
        u = (successors n).withMark m := by
  cases hname : Text.isNumeral name with
  | false =>
    rw [toSuccessors_of_not_isNumeral hname] at h
    exact .inl ⟨rfl, (Except.ok.inj h).symm⟩
  | true =>
    cases hn : Text.readNat? name with
    | none =>
      rw [toSuccessors, nameValue, if_pos hname, hn] at h
      cases h
    | some n =>
      rw [toSuccessors_of_readNat? hname hn] at h
      exact .inr ⟨n, rfl, rfl, (Except.ok.inj h).symm⟩

theorem toSuccessorsAll_cons_eq_ok_iff {t : Expr α} {ts us : List (Expr α)} :
    toSuccessorsAll (t :: ts) = .ok us ↔
      ∃ u us', us = u :: us' ∧ t.toSuccessors = .ok u ∧ toSuccessorsAll ts = .ok us' := by
  rw [toSuccessorsAll, bind_eq_ok_iff]
  constructor
  · rintro ⟨u, hu, h⟩
    obtain ⟨us', hus', h⟩ := bind_eq_ok_iff.mp h
    cases h
    exact ⟨u, us', rfl, hu, hus'⟩
  · rintro ⟨u, us', rfl, hu, hus'⟩
    exact ⟨u, hu, bind_eq_ok_iff.mpr ⟨us', hus', rfl⟩⟩

/-- The members of a list are turned into successors one by one. -/
theorem toSuccessorsAll_eq_ok_iff {ts us : List (Expr α)} :
    toSuccessorsAll ts = .ok us ↔ List.Forall₂ (fun t u => t.toSuccessors = .ok u) ts us := by
  induction ts generalizing us with
  | nil =>
    rw [toSuccessorsAll, List.forall₂_nil_left_iff, eq_comm (a := us)]
    exact ⟨fun h => by cases h; rfl, fun h => h ▸ rfl⟩
  | cons t ts ih =>
    rw [toSuccessorsAll_cons_eq_ok_iff, List.forall₂_cons_left_iff]
    simp only [ih]
    exact ⟨fun ⟨u, us', heq, hu, hus'⟩ => ⟨u, us', hu, hus', heq⟩,
      fun ⟨u, us', hu, hus', heq⟩ => ⟨u, us', heq, hu, hus'⟩⟩

theorem forall_mem_of_toSuccessorsAll {p : Expr α → Prop} {ts us : List (Expr α)}
    (h : toSuccessorsAll ts = .ok us) (hp : ∀ t ∈ ts, ∀ u, t.toSuccessors = .ok u → p u) :
    ∀ u ∈ us, p u := by
  rw [toSuccessorsAll_eq_ok_iff] at h
  induction h with
  | nil => exact List.forall_mem_nil _
  | cons hu _ ih =>
    obtain ⟨ht, hts⟩ := List.forall_mem_cons.mp hp
    exact List.forall_mem_cons.mpr ⟨ht _ hu, ih hts⟩

end Expr

/-- What an argument becomes when its names and then its numerals are replaced. -/
def Aliases.read (A : Aliases) (t : Object) : Except Fault Object := (A.expand t).toSuccessors

/-! ## Preparing arguments -/

namespace Session

variable {S S' : Session} {directive n : String} {args : List Object}

/-- A directive other than `Use` and `Done` has its names replaced, and then its numerals. -/
theorem prepare_eq [HoleOrder] (hS : S.order = initial.order) (hdone : directive ≠ "Done")
    (huse : directive ≠ "Use") (args : List Object) :
    S.prepare directive ⟨args, false⟩ S.order =
      ({ S with aliases := (prepareNames S.aliases directive args).1 },
        (Expr.toSuccessorsAll (prepareNames S.aliases directive args).2).map (⟨·, false⟩)) := by
  suffices h : S.prepare directive ⟨args, false⟩ (standardOrder.map .own) =
      ({ S with aliases := (prepareNames S.aliases directive args).1 },
        (Expr.toSuccessorsAll (prepareNames S.aliases directive args).2).map (⟨·, false⟩)) from
    (congrArg (S.prepare directive ⟨args, false⟩) hS).trans h
  simp only [standardOrder, List.map_cons, List.map_nil, prepare, prepareIn, prepareOwn,
    prepareRule, prepareNumerals, prepareWarning, if_neg hdone, if_neg huse]
  cases Expr.toSuccessorsAll (prepareNames S.aliases directive args).2 with
  | error f => rfl
  | ok args' => rfl

/-- A directive that gives no names reads its arguments as they are. -/
theorem prepareNames_of_ne {h : History Aliases} (hdefine : directive ≠ "Define")
    (hposit : directive ≠ "Axiom") (hfunctorial : directive ≠ "Functorial") (args : List Object) :
    prepareNames h directive args = (h, args.map h.current.expand) := by
  rw [prepareNames, nameLeading, if_neg (not_or.mpr ⟨hposit, hfunctorial⟩)]
  cases args with
  | nil => rfl
  | cons arg args =>
    dsimp only
    rw [expandNames, if_neg hdefine, Aliases.expandAll_eq_map, List.map_cons]

/-- The name that `Define` gives is not replaced. -/
theorem prepareNames_define (h : History Aliases) (args : List Object) :
    prepareNames h "Define" args = (h, expandNames h.current "Define" args) := by
  rw [prepareNames, nameLeading, if_neg (by decide)]

/-! ## Carrying out directives -/

/-- What is left of processing a directive once its arguments are prepared. -/
theorem process_of_prepare [HoleOrder] {d : Directive} {p : Prepared} {v : Verb}
    (hS : S.order = initial.order) (hp : S.prepare d.name ⟨d.args, false⟩ S.order = (S', .ok p))
    (hv : Verb.ofName? d.name = some v) :
    (S.process d).1.aliases = (S'.perform v p.args).1.aliases ∧
      (S.process d).1.goals = (S'.perform v p.args).1.goals := by
  have hcontains : S'.order.contains (.own v.component) = true := by
    have hnamed := fst_prepare hS d
    rw [hp] at hnamed
    exact contains_component (congrArg Session.order hnamed |>.trans hS) v
  rw [process, hp]
  dsimp only
  rw [hv, Option.filter_some, if_pos hcontains]
  dsimp only
  split
  · rename_i heq
    rw [heq]
    exact ⟨rfl, rfl⟩
  · rename_i heq
    rw [heq]
    exact ⟨rfl, rfl⟩

/-- Carrying out a directive does nothing, or moves its component on. -/
theorem perform_eq_or_pushed [HoleOrder] (hS : S.chainsPremises = false) (v : Verb)
    (args : List Object) :
    (S.perform v args).1 = S ∨ Pushed S v.component (S.perform v args).1 := by
  cases h : (S.perform v args).2 with
  | ok a =>
    have hanswered := answered_perform hS h
    generalize (S.perform v args).1 = S' at hanswered ⊢
    cases hanswered with
    | moved _ _ hpushed => exact .inr hpushed
    | stayed => exact .inl rfl
  | error f =>
    rcases perform_error_cases hS h with heq | ⟨rfl | rfl, hpushed⟩
    · exact .inl heq
    · exact .inr hpushed
    · exact .inr hpushed

theorem Pushed.aliases_eq {c : Component} (h : Pushed S c S') (hc : c ≠ .alias) :
    S'.aliases = S.aliases := by
  cases h with
  | aliases A => exact absurd rfl hc
  | chain | functorials | goals => rfl

/-- Only `Define` gives a name when it is carried out. -/
theorem aliases_perform [HoleOrder] (hS : S.chainsPremises = false) {v : Verb} (hv : v ≠ .define)
    (args : List Object) : (S.perform v args).1.aliases = S.aliases := by
  have hcomponent : v.component ≠ .alias := by
    cases v with
    | define => exact absurd rfl hv
    | _ => decide
  rcases perform_eq_or_pushed hS v args with heq | hpushed
  · rw [heq]
  · exact hpushed.aliases_eq hcomponent

/-- `Define` gives its name, if the prepared argument is one, to the other prepared argument. -/
theorem aliases_perform_define [HoleOrder] (S : Session) (args : List Object) :
    (S.perform .define args).1.aliases = S.aliases ∨ ∃ m n t, args = [.node m (.term n) [], t] ∧
      (S.perform .define args).1.aliases = S.aliases.push (S.aliases.current.define n t) := by
  rcases args with _ | ⟨name, _ | ⟨t, _ | ⟨_, _⟩⟩⟩
  · exact .inl rfl
  · exact .inl rfl
  · rcases name with _ | ⟨m, h, _ | ⟨c, cs⟩⟩
    · exact .inl rfl
    · cases h with
      | term n => exact .inr ⟨m, n, t, rfl, rfl⟩
      | rule | comp | goal | other => exact .inl rfl
    · cases h <;> exact .inl rfl
  · exact .inl rfl

end Session

/-! ## Names that directives give -/

/-- A directive gives a name: `Define` to its other argument, and a leading name to the last one. -/
inductive Directive.Names : Directive → String → Prop
  | define {name t : Object} {m : Note} {n : String}
      (h : name.toSuccessors = .ok (.node m (.term n) [])) : Names ⟨"Define", [name, t]⟩ n
  | leading {d : Directive} {n : String} {t : Object} {args : List Object}
      (hd : d.name = "Axiom" ∨ d.name = "Functorial")
      (h : Aliases.leadingName? d.args = some (n, t, args)) : Names d n

namespace Session

variable {S S' : Session} {d : Directive} {n : String} {t : Object}

theorem named_cases (S : Session) (d : Directive) :
    S.named d = S ∨ ∃ n t args, (d.name = "Axiom" ∨ d.name = "Functorial") ∧
      Aliases.leadingName? d.args = some (n, t, args) ∧
      (S.named d).aliases = S.aliases.push (S.aliases.current.define n t) := by
  rw [named, nameLeading]
  split
  · rename_i hname
    split
    · rename_i n t args hleading
      exact .inr ⟨n, t, args, hname, hleading, rfl⟩
    · exact .inl rfl
  · exact .inl rfl

variable [HoleOrder]

/-- A directive other than `Define` only gives a leading name. -/
theorem aliases_process_of_ne (hS : S.Intact) (hd : d.name ≠ "Define") :
    (S.process d).1.aliases = (S.named d).aliases := by
  have hperform : ∀ {v : Verb} {args : List Object} {S₁ : Session} {r : Except Fault Answer},
      Verb.ofName? d.name = some v → (S.named d).perform v args = (S₁, r) →
        S₁.aliases = (S.named d).aliases := by
    intro v args S₁ r hv hS₁
    have hdefine : v ≠ .define := by
      rintro rfl
      exact hd (Verb.name_of_ofName? hv).symm
    have haliases := aliases_perform (hS.named d).chainsPremises hdefine args
    rw [hS₁] at haliases
    exact haliases
  have hprocessed := processed hS.order d
  generalize S.process d = r at hprocessed
  cases hprocessed with
  | unprepared | unknown => rfl
  | brokenOff hv h => exact hperform hv h
  | handled hv h =>
    have haliases := hperform hv h
    exact haliases

/-- How the arguments of `Define` are prepared. -/
theorem prepare_define (hS : S.order = initial.order) (args : List Object) :
    S.prepare "Define" ⟨args, false⟩ S.order = (S,
      (Expr.toSuccessorsAll (expandNames S.aliases.current "Define" args)).map (⟨·, false⟩)) := by
  rw [prepare_eq hS (by decide) (by decide), prepareNames_define]

/-- **A directive leaves the aliases as they are, or gives one name.** -/
theorem aliases_process (hS : S.Intact) (d : Directive) :
    (S.process d).1.aliases = S.aliases ∨ ∃ n t, d.Names n ∧
      (S.process d).1.aliases = S.aliases.push (S.aliases.current.define n t) := by
  by_cases hd : d.name = "Define"
  · obtain ⟨name, args⟩ := d
    cases hd
    cases hargs : Expr.toSuccessorsAll (expandNames S.aliases.current "Define" args) with
    | error f =>
      refine .inl ?_
      rw [process, prepare_define hS.order, hargs]
      rfl
    | ok args' =>
      have hp : S.prepare "Define" ⟨args, false⟩ S.order = (S, .ok ⟨args', false⟩) := by
        rw [prepare_define hS.order, hargs]
        rfl
      rw [(process_of_prepare hS.order hp (v := .define) rfl).1]
      rcases S.aliases_perform_define args' with heq | ⟨m, n, t, rfl, heq⟩
      · exact .inl heq
      · refine .inr ⟨n, t, ?_, heq⟩
        -- two prepared arguments come from two arguments
        rw [Expr.toSuccessorsAll_eq_ok_iff] at hargs
        rcases args with _ | ⟨name, _ | ⟨arg, _ | ⟨_, _⟩⟩⟩
        · cases hargs
        · cases hargs.length_eq
        · exact .define (List.forall₂_cons.mp hargs).1
        · cases hargs.length_eq
  · rw [aliases_process_of_ne hS hd]
    rcases S.named_cases d with heq | ⟨n, t, args, hname, hleading, heq⟩
    · exact .inl (by rw [heq])
    · exact .inr ⟨n, t, .leading hname hleading, heq⟩

/-- Carrying out `Define` with a name that is no numeral: it breaks off when its other argument
cannot be read, and otherwise gives the name to what has been read. -/
theorem aliases_process_define (hS : S.order = initial.order) (hn : Text.isNumeral n = false)
    (m : Note) (t : Object) :
    (∃ f, S.process ⟨"Define", [.node m (.term n) [], t]⟩ = (S, .error f)) ∨
      ∃ u, S.aliases.current.read t = .ok u ∧
        (S.process ⟨"Define", [.node m (.term n) [], t]⟩).1.aliases =
          S.aliases.push (S.aliases.current.define n u) := by
  have hprepare := prepare_define hS [.node m (.term n) [], t]
  have hname := Expr.toSuccessors_of_not_isNumeral hn m
  have hexpand : expandNames S.aliases.current "Define" [.node m (.term n) [], t] =
      [.node m (.term n) [], S.aliases.current.expand t] := by
    rw [expandNames, if_pos rfl, Aliases.expandAll_eq_map]
    rfl
  rw [hexpand] at hprepare
  cases hu : S.aliases.current.read t with
  | error f =>
    rw [Aliases.read] at hu
    refine .inl ⟨f, ?_⟩
    rw [Expr.toSuccessorsAll, hname, Expr.toSuccessorsAll, hu] at hprepare
    rw [process]
    dsimp only
    rw [hprepare]
    rfl
  | ok u =>
    rw [Aliases.read] at hu
    have hargs : Expr.toSuccessorsAll [.node m (.term n) [], S.aliases.current.expand t] =
        .ok [.node m (.term n) [], u] :=
      Expr.toSuccessorsAll_eq_ok_iff.mpr (.cons hname (.cons hu .nil))
    rw [hargs] at hprepare
    have haliases := (process_of_prepare (d := ⟨"Define", [.node m (.term n) [], t]⟩) hS hprepare
      (v := .define) rfl).1
    exact .inr ⟨u, rfl, haliases⟩

end Session

end RuleProver
