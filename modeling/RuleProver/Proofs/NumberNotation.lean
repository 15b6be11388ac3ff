import RuleProver.Proofs.NamedAxioms
import RuleProver.Proofs.ShownNames

/-!
# The two notations of numbers

A number is written as a decimal constant or as a nest of successors over zero, and the two may be
mixed: a nest may end in a decimal constant. `Expr.toSuccessors` replaces all decimal constants, and
`Expr.toDecimals` all nests that end in zero. What an expression is turned into by the first says
which number it is, and the second does not change that: so all ways to read a number agree, and the
two notations can be exchanged.

On the way back, a number is written in *plain* decimal notation. So an expression comes back as it
was if its numerals are plain and if it has no zero and no successors, which would be replaced too.

## Main definitions

* `Text.IsPlain` — plain decimal notation
* `Expr.predecessor?` — the expression under a successor
* `Expr.Valued` — all numerals have values

## Main results

* `Text.isPlain_iff` — plain texts are those that numbers are written as
* `Expr.induction_on_successors` — induction with cases for constants and for successors
* `Expr.successorDepth?_eq_some_iff` — nests of successors by their depth
* `Expr.integer?_of_toSuccessors`, `Expr.readers_agree` — reading numbers
* `Expr.successorForm_toDecimals`, `Expr.toDecimals_of_toSuccessors` — changing the notation
* `Expr.notations_inverse` — changing it twice
-/

namespace RuleProver

/-! ## Plain decimal notation -/

namespace Text

variable {c : Char} {cs : List Char} {s : String} {n : Nat}

/-- Plain decimal notation: the ten common digits, and no zero in front of others. -/
structure IsPlain (s : String) : Prop where
  ne_empty : s.toList ≠ []
  digits : s.toList.all Char.isDigit = true
  no_leading_zero : s.toList.head? = some '0' → s.toList = ['0']

instance (s : String) : Decidable (IsPlain s) :=
  decidable_of_iff (s.toList ≠ [] ∧ s.toList.all Char.isDigit = true ∧
      (s.toList.head? = some '0' → s.toList = ['0']))
    ⟨fun h => ⟨h.1, h.2.1, h.2.2⟩, fun h => ⟨h.ne_empty, h.digits, h.no_leading_zero⟩⟩

theorem readDigits_eq (hcs : ∀ c ∈ cs, c.isDigit = true) (n : Nat) :
    readDigits n cs = some (Nat.ofDigitChars 10 cs n) := by
  induction cs generalizing n with
  | nil => rfl
  | cons c cs ih =>
    obtain ⟨hc, hcs⟩ := List.forall_mem_cons.mp hcs
    rw [readDigits, digitValue?_of_isDigit hc, Option.bind_some, ih hcs, Nat.ofDigitChars_cons]

theorem isDigit_of_mem_decimalDigits (hc : c ∈ decimalDigits n) : c.isDigit = true :=
  Nat.isDigit_of_mem_toDigits (by decide) (by decide) hc

theorem readNat?_eq (hne : s.toList ≠ []) (hs : ∀ c ∈ s.toList, c.isDigit = true) :
    readNat? s = some (Nat.ofDigitChars 10 s.toList 0) := by
  rw [readNat?, if_neg (by simpa using hne), readDigits_eq hs]

/-- A number is read as it is written. -/
theorem readNat?_decimal (n : Nat) : readNat? (decimal n) = some n := by
  have hchars : (decimal n).toList = decimalDigits n := String.toList_ofList
  rw [readNat?_eq (hchars ▸ Nat.toDigits_ne_nil)
    (hchars ▸ fun c hc => isDigit_of_mem_decimalDigits hc), hchars]
  exact congrArg some (Nat.ofDigitChars_toDigits (by decide) (by decide))

theorem digit_lt_ten (hc : c.isDigit = true) : c.toNat - '0'.toNat < 10 := by
  have hmost : c.toNat ≤ '9'.toNat := (Char.isDigit_iff_toNat.mp hc).2
  have hnine : '9'.toNat = '0'.toNat + 9 := rfl
  omega

theorem decimalDigits_digit (hc : c.isDigit = true) :
    decimalDigits (c.toNat - '0'.toNat) = [c] := by
  have hlt := digit_lt_ten hc
  have hchar : (c.toNat - '0'.toNat).digitChar = c := by
    rw [← Char.toNat_inj, Nat.toNat_digitChar_of_lt_ten hlt]
    exact Nat.add_sub_cancel' (Char.isDigit_iff_toNat.mp hc).1
  rw [decimalDigits, Nat.toDigits_of_lt_base hlt, hchar]

/-- Digits that are read after a number other than zero are written after it. -/
theorem decimalDigits_append (hn : 0 < n) (hcs : ∀ c ∈ cs, c.isDigit = true) :
    decimalDigits n ++ cs = decimalDigits (Nat.ofDigitChars 10 cs n) := by
  induction cs generalizing n with
  | nil => exact List.append_nil _
  | cons c cs ih =>
    obtain ⟨hc, hcs⟩ := List.forall_mem_cons.mp hcs
    calc decimalDigits n ++ c :: cs
        = decimalDigits n ++ decimalDigits (c.toNat - '0'.toNat) ++ cs := by
          rw [decimalDigits_digit hc, List.append_assoc, List.singleton_append]
      _ = decimalDigits (10 * n + (c.toNat - '0'.toNat)) ++ cs :=
          congrArg (· ++ cs) (Nat.toDigits_append_toDigits (by decide) hn (digit_lt_ten hc))
      _ = decimalDigits (Nat.ofDigitChars 10 (c :: cs) n) := by
          rw [ih (by omega) hcs, Nat.ofDigitChars_cons]

theorem eq_zero_of_head?_decimalDigits (h : (decimalDigits n).head? = some '0') : n = 0 := by
  induction n using Nat.strongRecOn with
  | ind n ih =>
    rcases Nat.lt_or_ge n 10 with hlt | hge
    · rw [decimalDigits, Nat.toDigits_of_lt_base hlt] at h
      exact Nat.digitChar_eq_zero.mp (Option.some.inj h)
    · rw [decimalDigits, Nat.toDigits_of_base_le (by decide) hge,
        List.head?_append_of_ne_nil _ Nat.toDigits_ne_nil] at h
      have hzero := ih (n / 10) (by omega) h
      omega

/-- **The texts in plain decimal notation are those that numbers are written as.** -/
theorem isPlain_iff : IsPlain s ↔ ∃ n, s = decimal n := by
  constructor
  · rintro ⟨hne, hdigits, hzero⟩
    obtain ⟨c, cs, hs⟩ := List.exists_cons_of_ne_nil hne
    rw [hs] at hdigits hzero
    obtain ⟨hc, hcs⟩ := List.forall_mem_cons.mp (List.all_eq_true.mp hdigits)
    rw [← String.ofList_toList (s := s), hs]
    by_cases hfirst : c = '0'
    · subst hfirst
      rw [hzero rfl]
      exact ⟨0, rfl⟩
    · have hpos : 0 < c.toNat - '0'.toNat := by
        have hleast := (Char.isDigit_iff_toNat.mp hc).1
        have hdistinct : c.toNat ≠ '0'.toNat := fun h => hfirst (Char.toNat_inj.mp h)
        omega
      have happend := decimalDigits_append hpos hcs
      rw [decimalDigits_digit hc, List.singleton_append] at happend
      exact ⟨_, congrArg String.ofList happend⟩
  · rintro ⟨n, rfl⟩
    have hchars : (decimal n).toList = decimalDigits n := String.toList_ofList
    refine ⟨hchars ▸ Nat.toDigits_ne_nil, ?_, ?_⟩
    · rw [hchars, List.all_eq_true]
      exact fun c => isDigit_of_mem_decimalDigits
    · rw [hchars]
      intro hhead
      rw [eq_zero_of_head?_decimalDigits hhead]
      rfl

end Text

/-! ## Successors -/

namespace Expr

variable {α : Type}

theorem mark_withMark (t : Expr α) (m : α) : (t.withMark m).mark = m := by
  cases t <;> rfl

/-- The expression of which a term is the successor. -/
def predecessor? : Expr α → Option (Expr α)
  | .node _ (.term "S") [t] => some t
  | _ => none

theorem predecessor?_eq_some_iff {t u : Expr α} :
    t.predecessor? = some u ↔ ∃ m, t = .node m (.term "S") [u] := by
  constructor
  · intro h
    unfold predecessor? at h
    split at h
    · exact ⟨_, congrArg _ (congrArg (· :: []) (Option.some.inj h))⟩
    · cases h
  · rintro ⟨m, rfl⟩
    rfl

/-- Whether a node is a successor depends on its head and on the number of its children. -/
theorem predecessor?_eq_none_of_length {β : Type} {m : α} {m' : β} {h : Head} {cs : List (Expr α)}
    {us : List (Expr β)} (hlen : us.length = cs.length)
    (hp : (Expr.node m h cs).predecessor? = none) : (Expr.node m' h us).predecessor? = none := by
  rw [Option.eq_none_iff_forall_ne_some]
  intro u hu
  obtain ⟨_, heq⟩ := predecessor?_eq_some_iff.mp hu
  obtain ⟨-, rfl, rfl⟩ := Expr.node.inj heq
  obtain ⟨c, rfl⟩ := List.length_eq_one_iff.mp hlen.symm
  cases hp

/-- Induction on an expression, with a case for constants and one for successors. -/
@[elab_as_elim]
theorem induction_on_successors {motive : Expr α → Prop} (hole : ∀ m x, motive (.hole m x))
    (const : ∀ m name, motive (.node m (.term name) []))
    (succ : ∀ m t, motive t → motive (.node m (.term "S") [t]))
    (node : ∀ m h cs, (Expr.node m h cs).constant? = none →
      (Expr.node m h cs).predecessor? = none → (∀ c ∈ cs, motive c) → motive (.node m h cs))
    (t : Expr α) : motive t := by
  induction t using induction_on_constants with
  | hole m x => exact hole m x
  | const m name => exact const m name
  | node m h cs hc ih =>
    cases hp : (Expr.node m h cs).predecessor? with
    | none => exact node m h cs hc hp ih
    | some t =>
      obtain ⟨m', heq⟩ := predecessor?_eq_some_iff.mp hp
      cases heq
      exact succ m t (ih t (by simp))

/-! ## Depths -/

theorem successorDepth?_hole (m : α) (x : String) : (Expr.hole m x).successorDepth? = none := by
  rw [successorDepth?] <;> simp

theorem successorDepth?_const (m : α) (name : String) :
    (Expr.node m (.term name) []).successorDepth? = if name = "zero" then some 0 else none := by
  by_cases hname : name = "zero"
  · subst hname
    rw [successorDepth?, if_pos rfl]
  · rw [successorDepth?, if_neg hname]
    · rintro _ ⟨⟩
      exact hname rfl
    · rintro _ t ⟨⟩

theorem successorDepth?_succ (m : α) (t : Expr α) :
    (Expr.node m (.term "S") [t]).successorDepth? = t.successorDepth?.map (· + 1) := by
  rw [successorDepth?]

theorem successorDepth?_node {m : α} {h : Head} {cs : List (Expr α)}
    (hc : (Expr.node m h cs).constant? = none) (hp : (Expr.node m h cs).predecessor? = none) :
    (Expr.node m h cs).successorDepth? = none := by
  rw [successorDepth?]
  · rintro _ ⟨⟩
    cases hc
  · rintro _ t ⟨⟩
    cases hp

/-- With as many children, a node of the same head has no depth either. -/
theorem successorDepth?_of_length {β : Type} {m : α} {m' : β} {h : Head} {cs : List (Expr α)}
    {us : List (Expr β)} (hlen : us.length = cs.length) (hc : (Expr.node m h cs).constant? = none)
    (hp : (Expr.node m h cs).predecessor? = none) : (Expr.node m' h us).successorDepth? = none :=
  successorDepth?_node (constant?_eq_none_of_length hlen hc)
    (predecessor?_eq_none_of_length hlen hp)

theorem successorDepth?_erase (t : Expr α) : t.erase.successorDepth? = t.successorDepth? := by
  induction t using induction_on_successors with
  | hole m x => rw [erase_hole, successorDepth?_hole, successorDepth?_hole]
  | const m name => rw [erase_node, List.map_nil, successorDepth?_const, successorDepth?_const]
  | succ m t ih =>
    rw [erase_node, List.map_singleton, successorDepth?_succ, successorDepth?_succ, ih]
  | node m h cs hc hp ih =>
    rw [erase_node, successorDepth?_node hc hp,
      successorDepth?_of_length (List.length_map erase) hc hp]

/-! ## Reading numbers -/

theorem integer?_of_readNat? {name : String} {n : Nat} (h : Text.isNumeral name = true)
    (hn : Text.readNat? name = some n) (m : α) :
    (Expr.node m (.term name) []).integer? = .ok (some n) := by
  rw [integer?, nameValue, if_pos h, hn]
  rfl

theorem integer?_of_not_isNumeral {name : String} (h : Text.isNumeral name = false) (m : α) :
    (Expr.node m (.term name) []).integer? = .ok (if name = "zero" then some 0 else none) := by
  rw [integer?, nameValue, h]
  rfl

theorem integer?_succ (m : α) (t : Expr α) :
    (Expr.node m (.term "S") [t]).integer? = t.integer?.map (Option.map (· + 1)) := by
  rw [integer?]
  cases t.integer? <;> rfl

theorem integer?_node {m : α} {h : Head} {cs : List (Expr α)}
    (hc : (Expr.node m h cs).constant? = none) (hp : (Expr.node m h cs).predecessor? = none) :
    (Expr.node m h cs).integer? = .ok none := by
  rw [integer?]
  · rfl
  · rintro _ name ⟨⟩
    cases hc
  · rintro _ t ⟨⟩
    cases hp

variable [Inhabited α]

theorem successorDepth?_successors (n : Nat) :
    (successors n : Expr α).successorDepth? = some n := by
  induction n with
  | zero => rw [successors, successorDepth?_const, if_pos rfl]
  | succ n ih => rw [successors, successorDepth?_succ, ih, Option.map_some]

theorem successorDepth?_withMark_successors (n : Nat) (m : α) :
    ((successors n : Expr α).withMark m).successorDepth? = some n := by
  rw [← successorDepth?_erase, erase_withMark, successorDepth?_erase, successorDepth?_successors]

theorem erase_of_depth {t : Expr α} {n : Nat} (h : t.successorDepth? = some n) :
    t.erase = (successors n : Expr α).erase := by
  induction t using induction_on_successors generalizing n with
  | hole m x =>
    rw [successorDepth?_hole] at h
    cases h
  | const m name =>
    rw [successorDepth?_const, Option.ite_none_right_eq_some] at h
    obtain ⟨rfl, h⟩ := h
    cases h
    rfl
  | succ m t ih =>
    rw [successorDepth?_succ, Option.map_eq_some_iff] at h
    obtain ⟨k, hk, rfl⟩ := h
    rw [successors, erase_node, erase_node, List.map_singleton, List.map_singleton, ih hk]
  | node m hd cs hc hp ih =>
    rw [successorDepth?_node hc hp] at h
    cases h

/-- The nests of successors over zero are the expressions with a depth. -/
theorem successorDepth?_eq_some_iff {t : Expr α} {n : Nat} :
    t.successorDepth? = some n ↔ t.same (successors n : Expr α) = true := by
  rw [same_iff]
  refine ⟨erase_of_depth, fun h => ?_⟩
  rw [← successorDepth?_erase, h, successorDepth?_erase, successorDepth?_successors]

theorem toSuccessors_succ (m : α) (t : Expr α) :
    (Expr.node m (.term "S") [t]).toSuccessors =
      t.toSuccessors.map fun u => .node m (.term "S") [u] := by
  rw [toSuccessors_node rfl, toSuccessorsAll]
  cases t.toSuccessors <;> rfl

/-- **An expression is read as the depth of what it is turned into.** -/
theorem integer?_of_toSuccessors {t u : Expr α} (h : t.toSuccessors = .ok u) :
    t.integer? = .ok u.successorDepth? := by
  induction t using induction_on_successors generalizing u with
  | hole m x =>
    rw [toSuccessors_hole] at h
    cases h
    rfl
  | const m name =>
    obtain ⟨hname, rfl⟩ | ⟨n, hname, hn, rfl⟩ := toSuccessors_const_cases h
    · rw [integer?_of_not_isNumeral hname, successorDepth?_const]
    · rw [integer?_of_readNat? hname hn, successorDepth?_withMark_successors]
  | succ m t ih =>
    rw [toSuccessors_succ, map_eq_ok_iff] at h
    obtain ⟨v, hv, rfl⟩ := h
    rw [integer?_succ, ih hv, successorDepth?_succ]
    rfl
  | node m hd cs hc hp ih =>
    rw [toSuccessors_node hc, map_eq_ok_iff] at h
    obtain ⟨us, hus, rfl⟩ := h
    have hlen : us.length = cs.length := (toSuccessorsAll_eq_ok_iff.mp hus).length_eq.symm
    rw [integer?_node hc hp, successorDepth?_of_length hlen hc hp]

/-! ## Numerals with values -/

/-- All numerals have values. -/
def Valued (t : Expr α) : Prop :=
  ∀ name ∈ t.constants, Text.isNumeral name = true → (Text.readNat? name).isSome = true

instance (t : Expr α) : Decidable t.Valued := inferInstanceAs (Decidable (∀ name ∈ t.constants, _))

theorem exists_toSuccessorsAll {ts : List (Expr α)} (h : ∀ t ∈ ts, ∃ u, t.toSuccessors = .ok u) :
    ∃ us, toSuccessorsAll ts = .ok us := by
  induction ts with
  | nil => exact ⟨[], toSuccessorsAll_eq_ok_iff.mpr .nil⟩
  | cons t ts ih =>
    obtain ⟨⟨u, hu⟩, hts⟩ := List.forall_mem_cons.mp h
    obtain ⟨us, hus⟩ := ih hts
    exact ⟨u :: us, toSuccessorsAll_cons_eq_ok_iff.mpr ⟨u, us, rfl, hu, hus⟩⟩

theorem Valued.exists_toSuccessors {t : Expr α} (ht : t.Valued) : ∃ u, t.toSuccessors = .ok u := by
  induction t using induction_on_constants with
  | hole m x => exact ⟨_, toSuccessors_hole m x⟩
  | const m name =>
    cases hname : Text.isNumeral name with
    | false => exact ⟨_, toSuccessors_of_not_isNumeral hname m⟩
    | true =>
      obtain ⟨n, hn⟩ := Option.isSome_iff_exists.mp (ht name (by simp) hname)
      exact ⟨_, toSuccessors_of_readNat? hname hn m⟩
  | node m h cs hc ih =>
    rw [Valued, constants_node hc] at ht
    obtain ⟨us, hus⟩ := exists_toSuccessorsAll fun c hmem =>
      ih c hmem fun name hname => ht name (List.mem_flatMap.mpr ⟨c, hmem, hname⟩)
    refine ⟨.node m h us, ?_⟩
    rw [toSuccessors_node hc, hus]
    rfl

/-- What is turned into successors has no numerals left. -/
theorem toSuccessors_idem {t u : Expr α} (h : t.toSuccessors = .ok u) : u.toSuccessors = .ok u :=
  toSuccessors_eq_self (not_isNumeral_of_toSuccessors h)

/-- **All readers of numbers agree.** -/
theorem readers_agree {t : Expr α} (ht : t.Valued) :
    ∃ u, t.toSuccessors = .ok u ∧
      (∀ n, (t.integer? = .ok (some n) ↔ u.same (successors n : Expr α) = true) ∧
        (t.integer? = .ok (some n) ↔ u.successorDepth? = some n)) ∧
      t.integer? = u.integer? := by
  obtain ⟨u, hu⟩ := ht.exists_toSuccessors
  have hdepth : ∀ n, t.integer? = .ok (some n) ↔ u.successorDepth? = some n := by
    intro n
    rw [integer?_of_toSuccessors hu, Except.ok.injEq]
  refine ⟨u, hu, fun n => ⟨?_, hdepth n⟩, ?_⟩
  · rw [hdepth, successorDepth?_eq_some_iff]
  · rw [integer?_of_toSuccessors hu, integer?_of_toSuccessors (toSuccessors_idem hu)]

/-- Two successors of a numeral are one number for every reader. -/
theorem readers_agree_on_four :
    ∃ u, (term "S" [term "S" [const "2"]] : Object).toSuccessors = .ok u ∧
      (term "S" [term "S" [const "2"]] : Object).integer? = .ok (some 4) ∧
      u.same (successors 4 : Object) = true ∧ u.successorDepth? = some 4 ∧
      u.integer? = .ok (some 4) := by
  have hvalued : (term "S" [term "S" [const "2"]] : Object).Valued := by decide
  have hfour : (term "S" [term "S" [const "2"]] : Object).integer? = .ok (some 4) := rfl
  obtain ⟨u, hu, hread, heq⟩ := readers_agree hvalued
  exact ⟨u, hu, hfour, (hread 4).1.mp hfour, (hread 4).2.mp hfour, heq ▸ hfour⟩

/-! ## From one notation to the other and back -/

theorem toDecimals_of_successorDepth? {t : Expr α} {n : Nat} (h : t.successorDepth? = some n) :
    t.toDecimals = .node t.mark (.term (Text.decimal n)) [] := by
  cases t with
  | hole m x =>
    rw [successorDepth?_hole] at h
    cases h
  | node m hd cs => exact toDecimals_of_depth h

theorem toSuccessors_of_successorDepth? {t : Expr α} {n : Nat} (h : t.successorDepth? = some n) :
    t.toSuccessors = .ok t := by
  have hconstants : t.constants = ["zero"] := by
    rw [← constants_erase, erase_of_depth h, constants_erase, constants_successors]
  refine toSuccessors_eq_self ?_
  rw [hconstants, List.forall_mem_singleton]
  exact Text.not_isNumeral_zero

theorem successorForms_cons (t : Expr α) (ts : List (Expr α)) :
    (toSuccessorsAll (t :: ts)).map (List.map erase) =
      t.successorForm.bind fun f => ((toSuccessorsAll ts).map (List.map erase)).map (f :: ·) := by
  rw [toSuccessorsAll, successorForm]
  cases t.toSuccessors with
  | error e => rfl
  | ok u => cases toSuccessorsAll ts <;> rfl

theorem successorForms_map {f : Expr α → Expr α} {ts : List (Expr α)}
    (h : ∀ t ∈ ts, (f t).successorForm = t.successorForm) :
    (toSuccessorsAll (ts.map f)).map (List.map erase) =
      (toSuccessorsAll ts).map (List.map erase) := by
  induction ts with
  | nil => rfl
  | cons t ts ih =>
    obtain ⟨ht, hts⟩ := List.forall_mem_cons.mp h
    rw [List.map_cons, successorForms_cons, successorForms_cons, ht, ih hts]

/-- **Decimal notation stands for the same numbers.** -/
theorem successorForm_toDecimals (t : Expr α) : t.toDecimals.successorForm = t.successorForm := by
  induction t with
  | hole m x => rw [toDecimals_hole]
  | node m h cs ih =>
    cases hn : (Expr.node m h cs).successorDepth? with
    | some n =>
      have hdecimal : (Expr.node m (.term (Text.decimal n)) []).toSuccessors =
          .ok ((successors n).withMark m) :=
        toSuccessors_of_readNat? (Text.isNumeral_decimal n) (Text.readNat?_decimal n) m
      rw [toDecimals_of_depth hn, successorForm_of_toSuccessors hdecimal, erase_withMark,
        successorForm_of_toSuccessors (toSuccessors_of_successorDepth? hn), erase_of_depth hn]
    | none =>
      rw [toDecimals_node hn]
      cases hc : (Expr.node m h cs).constant? with
      | none =>
        have hc' : (Expr.node m h (cs.map toDecimals)).constant? = none :=
          constant?_eq_none_of_length (List.length_map toDecimals) hc
        rw [successorForm_node hc, successorForm_node hc', successorForms_map ih]
      | some name =>
        obtain ⟨_, heq⟩ := constant?_eq_some_iff.mp hc
        obtain ⟨-, -, rfl⟩ := Expr.node.inj heq
        rfl

theorem map_eq_of_toSuccessorsAll {f : Expr α → Expr α} {ts us : List (Expr α)}
    (h : toSuccessorsAll ts = .ok us)
    (hf : ∀ t ∈ ts, ∀ u, t.toSuccessors = .ok u → f u = t) : us.map f = ts := by
  induction ts generalizing us with
  | nil =>
    cases toSuccessorsAll_eq_ok_iff.mp h
    rfl
  | cons t ts ih =>
    obtain ⟨u, us, rfl, hu, hus⟩ := toSuccessorsAll_cons_eq_ok_iff.mp h
    obtain ⟨ht, hts⟩ := List.forall_mem_cons.mp hf
    rw [List.map_cons, ht u hu, ih hus hts]

/-- Plain numerals come back, as long as nothing else is a number. -/
theorem toDecimals_of_toSuccessors {t u : Expr α}
    (hplain : ∀ name ∈ t.constants, Text.isNumeral name = true → Text.IsPlain name)
    (hzero : "zero" ∉ t.constants) (hsucc : ∀ s ∈ t.parts, s.predecessor? = none)
    (h : t.toSuccessors = .ok u) : u.toDecimals = t := by
  induction t using induction_on_constants generalizing u with
  | hole m x =>
    rw [toSuccessors_hole] at h
    cases h
    exact toDecimals_hole m x
  | const m name =>
    obtain ⟨hname, rfl⟩ | ⟨n, hname, hn, rfl⟩ := toSuccessors_const_cases h
    · exact toDecimals_eq_self hzero
    · obtain ⟨k, rfl⟩ := Text.isPlain_iff.mp (hplain name (by simp) hname)
      obtain rfl : k = n := Option.some.inj ((Text.readNat?_decimal k).symm.trans hn)
      rw [toDecimals_of_successorDepth? (successorDepth?_withMark_successors k m), mark_withMark]
  | node m hd cs hc ih =>
    rw [toSuccessors_node hc, map_eq_ok_iff] at h
    obtain ⟨us, hus, rfl⟩ := h
    have hlen : us.length = cs.length := (toSuccessorsAll_eq_ok_iff.mp hus).length_eq.symm
    have hp : (Expr.node m hd cs).predecessor? = none := hsucc _ (by simp)
    rw [constants_node hc] at hplain hzero
    rw [toDecimals_node (successorDepth?_of_length hlen hc hp)]
    congr 1
    refine map_eq_of_toSuccessorsAll hus fun c hmem v hv => ih c hmem ?_ ?_ ?_ hv
    · exact fun name hname => hplain name (List.mem_flatMap.mpr ⟨c, hmem, hname⟩)
    · exact fun hname => hzero (List.mem_flatMap.mpr ⟨c, hmem, hname⟩)
    · intro s hs
      refine hsucc s ?_
      rw [parts_node]
      exact List.mem_cons_of_mem _ (List.mem_flatMap.mpr ⟨c, hmem, hs⟩)

/-- **The two notations are inverse to each other.** Writing numbers in decimal notation first makes
no difference to the successors. The other way round, an expression comes back if its numerals are
plain and it has no other numbers, no zero and no successor. -/
theorem notations_inverse {t : Expr α} (ht : t.Valued) :
    (∃ u v, t.toSuccessors = .ok u ∧ t.toDecimals.toSuccessors = .ok v ∧ v.same u = true) ∧
      ((∀ name ∈ t.constants, Text.isNumeral name = true → Text.IsPlain name) →
        "zero" ∉ t.constants → (∀ s ∈ t.parts, s.predecessor? = none) →
        ∃ u, t.toSuccessors = .ok u ∧ u.toDecimals = t) := by
  obtain ⟨u, hu⟩ := ht.exists_toSuccessors
  constructor
  · have hform : t.toDecimals.successorForm = .ok u.erase := by
      rw [successorForm_toDecimals, successorForm_of_toSuccessors hu]
    obtain ⟨v, hv, hsame⟩ := map_eq_ok_iff.mp hform
    exact ⟨u, v, hu, hv, (same_iff v u).mpr hsame⟩
  · intro hplain hzero hsucc
    exact ⟨u, hu, toDecimals_of_toSuccessors hplain hzero hsucc hu⟩

/-- Successors over numerals of several scripts, over zero and over a hole. -/
abbrev mixedNotation : Object :=
  .rule (.term "S" [.term "S" [.const "٣"]]) "=>"
    (.comp (.term "f" [.term "S" [.const "zero"], .const "007"]) (.term "S" [.var "x"]))

/-- Plain numerals under a rule and a composition, and a name of successors with two arguments. -/
abbrev plainNotation : Object :=
  .rule (.term "f" [.const "10", .var "x"]) "=>"
    (.comp (.const "0") (.term "S" [.const "1", .const "2"]))

theorem notations_inverse_of_samples :
    (∃ u v, mixedNotation.toSuccessors = .ok u ∧ mixedNotation.toDecimals.toSuccessors = .ok v ∧
        v.same u = true) ∧
      ∃ u, plainNotation.toSuccessors = .ok u ∧ u.toDecimals = plainNotation := by
  have hmixed : mixedNotation.Valued := by decide
  have hvalued : plainNotation.Valued := by decide
  have hconstants : plainNotation.constants = ["10", "0", "1", "2"] := by decide
  refine ⟨(notations_inverse hmixed).1, (notations_inverse hvalued).2 ?_ ?_ ?_⟩
  · rw [hconstants]
    decide
  · rw [hconstants]
    decide
  · decide

end Expr

end RuleProver
