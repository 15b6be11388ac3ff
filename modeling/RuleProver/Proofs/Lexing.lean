import RuleProver.Proofs.Grammar
import Mathlib.Data.List.TakeWhile

/-!
# Cutting printed texts into tokens

A line is cut in the same way for all classes of characters that an `Alphabet` may have. A printed
text is put together from names, signs and single blanks. It is cut into the tokens that
it was put together from, because after every name comes a character that no name goes on with.
`Token.Lexes` says this of a part of a line, whatever comes before and after it, and says of the
tokens only what they derive: so the parts of a text can be put together like the phrases of the
grammar that they are read as.

A *symbol* is a text that is one symbol token, and a hole name is one that makes one hole token
with the hole sign before it.

## Main definitions

* `Token.IsSymbol`, `Token.IsHoleName` — names that are read as they are written
* `Token.text`, `Token.Formed` — the characters of a token, and the forms of tokens
* `Token.Lexes` — what a part of a line is cut into

## Main results

* `Token.scan_induction` — induction along a line, token by token
* `Token.isSymbol_iff`, `Token.isHoleName_iff` — symbols and hole names by their characters
* `Token.lexes_joined`, `Token.lexes_group`, `Token.lexes_call` — texts put together
* `Token.parse_of_lexes` — a line is read as what its parts derive
-/

namespace RuleProver

namespace Token

open Text RuleProver.Symbol

/-! ## One token -/

variable {A : Alphabet} {c : Char} {cs ds w rest : List Char} {i : Nat} {k : TokenKind}

/-- An operator character is of no other class. -/
theorem classes_of_isOperatorChar (A : Alphabet) (h : isOperatorChar c = true) :
    A.isBlank c = false ∧ A.isWordChar c = false ∧ c ≠ '#' := by
  obtain ⟨hmark, hunderscore, hstop, hhole⟩ := isPunctuation_of_isOperatorChar h
  exact ⟨A.isBlank_of_isPunctuation c hmark,
    Alphabet.isWordChar_of_isPunctuation hmark hunderscore hstop, hhole⟩

theorem takeWhile_append_eq {p : Char → Bool} (hw : ∀ x ∈ w, p x = true)
    (hrest : ∀ x ∈ rest.head?, p x = false) : (w ++ rest).takeWhile p = w := by
  rw [List.takeWhile_append_of_pos hw]
  cases rest with
  | nil => simp
  | cons x rest => simp [hrest x rfl]

theorem dropWhile_append_eq {p : Char → Bool} (hw : ∀ x ∈ w, p x = true)
    (hrest : ∀ x ∈ rest.head?, p x = false) : (w ++ rest).dropWhile p = rest := by
  rw [List.dropWhile_append_of_pos hw]
  cases rest with
  | nil => rfl
  | cons x rest => simp [hrest x rfl]

theorem bind_pure_cons (r : Except ParseError (List Token)) (t : Token) :
    (r >>= fun ts => pure (t :: ts)) = r.map (t :: ·) := by
  cases r <;> rfl

theorem scan_blank (hc : A.isBlank c = true) : scan A i (c :: cs) = scan A (i + 1) cs := by
  rw [scan, if_pos hc]

theorem scan_word (hc : A.isWordChar c = true) (hw : ∀ x ∈ w, A.isWordChar x = true)
    (hrest : ∀ x ∈ rest.head?, A.isWordChar x = false) :
    scan A i (c :: (w ++ rest)) =
      (scan A (i + (w.length + 1)) rest).map (⟨.symbol, String.ofList (c :: w), i⟩ :: ·) := by
  rw [scan, if_neg (by simp [Alphabet.isBlank_of_isWordChar hc]), if_pos hc,
    takeWhile_append_eq hw hrest, dropWhile_append_eq hw hrest, Nat.add_comm w.length,
    ← Nat.add_assoc]
  exact bind_pure_cons _ _

theorem scan_operator (hc : isOperatorChar c = true) (hw : ∀ x ∈ w, isOperatorChar x = true)
    (hrest : ∀ x ∈ rest.head?, isOperatorChar x = false) :
    scan A i (c :: (w ++ rest)) = (scan A (i + (w.length + 1)) rest).map
      (⟨operatorKind (c :: w), String.ofList (c :: w), i⟩ :: ·) := by
  obtain ⟨hblank, hword, hhole⟩ := classes_of_isOperatorChar A hc
  rw [scan, if_neg (by simp [hblank]), if_neg (by simp [hword]), if_neg hhole, if_pos hc,
    takeWhile_append_eq hw hrest, dropWhile_append_eq hw hrest, Nat.add_comm w.length,
    ← Nat.add_assoc]
  exact bind_pure_cons _ _

theorem classes_hash (A : Alphabet) : A.isBlank '#' = false ∧ A.isWordChar '#' = false :=
  ⟨A.isBlank_of_isPunctuation '#' (by decide),
    Alphabet.isWordChar_of_isPunctuation (by decide) (by decide) (by decide)⟩

theorem scan_hole (hne : w ≠ []) (hw : ∀ x ∈ w, A.isNameChar x = true)
    (hrest : ∀ x ∈ rest.head?, A.isNameChar x = false) :
    scan A i ('#' :: (w ++ rest)) =
      (scan A (i + (w.length + 1)) rest).map (⟨.hole, String.ofList w, i⟩ :: ·) := by
  obtain ⟨hblank, hword⟩ := classes_hash A
  rw [scan, if_neg (by simp [hblank]), if_neg (by simp [hword]), if_pos rfl,
    takeWhile_append_eq hw hrest, dropWhile_append_eq hw hrest, if_neg (by simpa using hne),
    Nat.add_comm w.length, ← Nat.add_assoc]
  exact bind_pure_cons _ _

/-- The signs that are tokens by themselves. -/
theorem singleKind?_cases (hc : singleKind? c = some k) :
    (c = '|' ∧ k = .pipe) ∨ (c = '(' ∧ k = .openParen) ∨ (c = ')' ∧ k = .closeParen) ∨
      (c = ',' ∧ k = .comma) := by
  unfold singleKind? at hc
  split at hc <;> cases hc <;> simp

/-- A sign that is a token by itself is of no other class. -/
theorem classes_of_singleKind? (A : Alphabet) (hc : singleKind? c = some k) :
    A.isBlank c = false ∧ A.isWordChar c = false ∧ c ≠ '#' ∧ isOperatorChar c = false := by
  have hmark : isPunctuation c = true ∧ c ≠ '_' ∧ c ≠ '.' ∧ c ≠ '#' ∧ isOperatorChar c = false := by
    rcases singleKind?_cases hc with ⟨rfl, -⟩ | ⟨rfl, -⟩ | ⟨rfl, -⟩ | ⟨rfl, -⟩ <;> decide
  obtain ⟨hmark, hunderscore, hstop, hrest⟩ := hmark
  exact ⟨A.isBlank_of_isPunctuation c hmark,
    Alphabet.isWordChar_of_isPunctuation hmark hunderscore hstop, hrest⟩

theorem scan_single (hc : singleKind? c = some k) :
    scan A i (c :: cs) = (scan A (i + 1) cs).map (⟨k, String.singleton c, i⟩ :: ·) := by
  obtain ⟨hblank, hword, hhole, hop⟩ := classes_of_singleKind? A hc
  rw [scan, if_neg (by simp [hblank]), if_neg (by simp [hword]), if_neg hhole,
    if_neg (by simp [hop]), hc]
  exact bind_pure_cons _ _

/-! ## Symbols and hole names -/

/-- A text that is one symbol token. -/
def IsSymbol (s : String) : Prop := ∃ i, tokenize s = .ok [⟨.symbol, s, i⟩]

/-- A text that makes one hole token with the hole sign before it. -/
def IsHoleName (x : String) : Prop := ∃ i, tokenize ("#" ++ x) = .ok [⟨.hole, x, i⟩]

/-- The characters of a symbol: word characters, or operator characters that are not arithmetic. -/
def SymbolChars (A : Alphabet) (cs : List Char) : Prop :=
  cs ≠ [] ∧ (cs.all A.isWordChar = true ∨
    cs.all isOperatorChar = true ∧ operatorKind cs = .symbol)

/-- The characters of a hole name. -/
def HoleChars (A : Alphabet) (cs : List Char) : Prop := cs ≠ [] ∧ cs.all A.isNameChar = true

instance (A : Alphabet) (cs : List Char) : Decidable (SymbolChars A cs) :=
  inferInstanceAs (Decidable (_ ∧ _))

instance (A : Alphabet) (cs : List Char) : Decidable (HoleChars A cs) :=
  inferInstanceAs (Decidable (_ ∧ _))

/-! ## Going along a line -/

/-- The characters of a token in its line: a hole has its sign before its name. -/
def text (t : Token) : List Char :=
  if t.kind = .hole then '#' :: t.value.toList else t.value.toList

theorem text_hole (w : List Char) (i : Nat) : text ⟨.hole, String.ofList w, i⟩ = '#' :: w := by
  simp [text]

theorem text_of_ne_hole (hk : k ≠ .hole) (w : List Char) (i : Nat) :
    text ⟨k, String.ofList w, i⟩ = w := by
  simp [text, hk]

theorem operatorKind_ne_hole (w : List Char) : operatorKind w ≠ .hole := by
  unfold operatorKind
  split <;> simp

theorem kind_of_singleKind? (hc : singleKind? c = some k) : k ≠ .symbol ∧ k ≠ .hole := by
  rcases singleKind?_cases hc with ⟨-, rfl⟩ | ⟨-, rfl⟩ | ⟨-, rfl⟩ | ⟨-, rfl⟩ <;> decide

/-- The forms of tokens, by the characters that they are made of. -/
inductive Formed (A : Alphabet) : Token → Prop
  | word {w : List Char} {i : Nat} (hne : w ≠ []) (hw : w.all A.isWordChar = true) :
      Formed A ⟨.symbol, String.ofList w, i⟩
  | operator {w : List Char} {i : Nat} (hne : w ≠ []) (hw : w.all isOperatorChar = true) :
      Formed A ⟨operatorKind w, String.ofList w, i⟩
  | hole {w : List Char} {i : Nat} (hw : HoleChars A w) : Formed A ⟨.hole, String.ofList w, i⟩
  | single {c : Char} {k : TokenKind} {i : Nat} (hc : singleKind? c = some k) :
      Formed A ⟨k, String.ofList [c], i⟩

/-- A character that tokens and the space between them may have. -/
def isReadable (A : Alphabet) (c : Char) : Bool :=
  A.isBlank c || A.isAlphanumeric c || ['_', '.', '#', '|', '(', ')', ','].contains c ||
    isOperatorChar c

/-- A character that starts no token is refused. -/
theorem isReadable_eq_false (hblank : ¬A.isBlank c = true) (hword : ¬A.isWordChar c = true)
    (hhole : c ≠ '#') (hop : ¬isOperatorChar c = true) (hsingle : singleKind? c = none) :
    isReadable A c = false := by
  have hsigns : ['|', '(', ')', ','].all fun c => (singleKind? c).isSome := by decide
  have hnot : c ∉ ['|', '(', ')', ','] := by
    intro hc
    have := List.all_eq_true.mp hsigns c hc
    rw [hsingle] at this
    cases this
  simp only [Alphabet.isWordChar, Alphabet.isNameChar, Bool.or_eq_true, beq_iff_eq, not_or] at hword
  simp only [List.mem_cons, List.not_mem_nil, or_false, not_or] at hnot
  simp [isReadable, hblank, hword, hop, hhole, hnot]

theorem head_of_takeWhile_isEmpty {p : Char → Bool} (h : (cs.takeWhile p).isEmpty = true) :
    ∀ x ∈ cs.head?, p x = false := by
  intro x hx
  obtain ⟨cs, rfl⟩ := List.head?_eq_some_iff.mp hx
  by_contra hp
  rw [List.takeWhile_cons_of_pos (by simpa using hp)] at h
  cases h

/-- **Induction along a line**, with one step for a blank, for each token, and for each reason to
refuse the line. -/
@[elab_as_elim]
theorem scan_induction {motive : Nat → List Char → Except ParseError (List Token) → Prop}
    (nil : ∀ i, motive i [] (.ok []))
    (blank : ∀ i c cs r, A.isBlank c = true → motive (i + 1) cs r → motive i (c :: cs) r)
    (token : ∀ t rest r, Formed A t → motive (t.position + t.text.length) rest r →
      motive t.position (t.text ++ rest) (r.map (t :: ·)))
    (nameless : ∀ i cs, (∀ c ∈ cs.head?, A.isNameChar c = false) →
      motive i ('#' :: cs) (.error (.namelessHole i)))
    (stray : ∀ i c cs, isReadable A c = false →
      motive i (c :: cs) (.error (.strayCharacter c i)))
    (i : Nat) (cs : List Char) : motive i cs (scan A i cs) := by
  -- the step for a token, in the form that the recursion gives it
  have hrun : ∀ {i : Nat} {k : TokenKind} {c : Char} {w rest v : List Char}
      {r : Except ParseError (List Token)}, Formed A ⟨k, String.ofList v, i⟩ →
      text ⟨k, String.ofList v, i⟩ = c :: w → motive (i + 1 + w.length) rest r →
      motive i (c :: (w ++ rest)) (r >>= fun ts => pure (⟨k, String.ofList v, i⟩ :: ts)) := by
    intro i k c w rest v r hformed htext hrest
    have h := token _ rest r hformed
    rw [htext, List.length_cons, Nat.add_comm w.length, ← Nat.add_assoc, List.cons_append] at h
    rw [bind_pure_cons]
    exact h hrest
  fun_induction scan A i cs with
  | case1 i => exact nil i
  | case2 i c cs hblank ih => exact blank i c cs _ hblank ih
  | case3 i c cs hblank hword w =>
    rename_i ih
    have hw : (c :: w).all A.isWordChar = true :=
      List.all_eq_true.mpr (List.forall_mem_cons.mpr ⟨hword, fun _ => List.mem_takeWhile_imp⟩)
    have h := hrun (.word (List.cons_ne_nil c w) hw) (text_of_ne_hole (by decide) _ i) ih
    rwa [List.takeWhile_append_dropWhile] at h
  | case4 i cs w hempty hblank hword =>
    exact nameless i cs (head_of_takeWhile_isEmpty hempty)
  | case5 i cs w hne hblank hword =>
    rename_i ih
    have hw : HoleChars A w :=
      ⟨by simpa using hne, List.all_eq_true.mpr fun _ => List.mem_takeWhile_imp⟩
    have h := hrun (.hole hw) (text_hole w i) ih
    rwa [List.takeWhile_append_dropWhile] at h
  | case6 i c cs hblank hword hhole hop w =>
    rename_i ih
    have hw : (c :: w).all isOperatorChar = true :=
      List.all_eq_true.mpr (List.forall_mem_cons.mpr ⟨hop, fun _ => List.mem_takeWhile_imp⟩)
    have htext := text_of_ne_hole (operatorKind_ne_hole (c :: w)) (c :: w) i
    have h := hrun (.operator (List.cons_ne_nil c w) hw) htext ih
    rwa [List.takeWhile_append_dropWhile] at h
  | case7 i c cs hblank hword hhole hop k hk ih =>
    exact hrun (w := []) (.single hk) (text_of_ne_hole (kind_of_singleKind? hk).2 _ i) ih
  | case8 i c cs hblank hword hhole hop hnone =>
    exact stray i c cs (isReadable_eq_false hblank hword hhole hop hnone)

/-- Symbols and holes among tokens are made of the characters that they may have. -/
def WellCut (A : Alphabet) (t : Token) : Prop :=
  (t.kind = .symbol → SymbolChars A t.value.toList) ∧ (t.kind = .hole → HoleChars A t.value.toList)

theorem Formed.wellCut {t : Token} (ht : t.Formed A) : t.WellCut A := by
  cases ht with
  | @word w i hne hw =>
    rw [WellCut, String.toList_ofList]
    exact ⟨fun _ => ⟨hne, .inl hw⟩, nofun⟩
  | @operator w i hne hw =>
    rw [WellCut, String.toList_ofList]
    exact ⟨fun hkind => ⟨hne, .inr ⟨hw, hkind⟩⟩, fun hkind => absurd hkind (operatorKind_ne_hole w)⟩
  | @hole w i hw =>
    rw [WellCut, String.toList_ofList]
    exact ⟨nofun, fun _ => hw⟩
  | @single c k i hc =>
    obtain ⟨hsymbol, hhole⟩ := kind_of_singleKind? hc
    exact ⟨fun hkind => absurd hkind hsymbol, fun hkind => absurd hkind hhole⟩

theorem formed_of_scan {ts : List Token} (h : scan A i cs = .ok ts) : ∀ t ∈ ts, t.Formed A := by
  induction i, cs using scan_induction generalizing ts with
  | nil i =>
    obtain rfl := Except.ok.inj h
    exact List.forall_mem_nil _
  | blank i c cs r hblank ih => exact ih h
  | token t rest r ht ih =>
    obtain ⟨us, hus, rfl⟩ := map_eq_ok_iff.mp h
    exact List.forall_mem_cons.mpr ⟨ht, ih hus⟩
  | nameless i cs hcs => cases h
  | stray i c cs hc => cases h

theorem wellCut_of_scan {ts : List Token} (h : scan A i cs = .ok ts) : ∀ t ∈ ts, WellCut A t :=
  fun t ht => (formed_of_scan h t ht).wellCut

/-! ## Parts of a line -/

/-- No name goes on with these characters. -/
def Parted (A : Alphabet) (rest : List Char) : Prop :=
  ∀ c ∈ rest.head?, A.isWordChar c = false ∧ isOperatorChar c = false

theorem parted_nil : Parted A [] := nofun

theorem Parted.append (hcs : Parted A cs) (hrest : Parted A rest) : Parted A (cs ++ rest) := by
  cases cs with
  | nil => exact hrest
  | cons c cs => exact hcs

/-- Wherever they stand in a line, the characters are cut into tokens with property `P`, unless a
name goes on behind them. They do not end in a blank, so they can also be the end of the line. -/
structure Lexes (A : Alphabet) (cs : List Char) (P : List Token → Prop) : Prop where
  last : ∃ c, cs.getLast? = some c ∧ A.isBlank c = false
  cut : ∀ i, ∃ ts, P ts ∧ ∀ rest, Parted A rest →
    scan A i (cs ++ rest) = (scan A (i + cs.length) rest).map (ts ++ ·)

variable {P Q : List Token → Prop}

theorem Lexes.mono (h : Lexes A cs P) (hPQ : ∀ ts, P ts → Q ts) : Lexes A cs Q := by
  refine ⟨h.last, fun i => ?_⟩
  obtain ⟨ts, hts, hcut⟩ := h.cut i
  exact ⟨ts, hPQ ts hts, hcut⟩

/-- One token with a kind and a value. -/
def One (k : TokenKind) (v : String) (ts : List Token) : Prop := ∃ i, ts = [⟨k, v, i⟩]

theorem exists_getLast?_of_forall (hne : cs ≠ []) (hcs : ∀ x ∈ cs, A.isBlank x = false) :
    ∃ c, cs.getLast? = some c ∧ A.isBlank c = false :=
  ⟨cs.getLast hne, List.getLast?_eq_some_getLast hne, hcs _ (List.getLast_mem hne)⟩

theorem lexes_wordChars (hne : cs ≠ []) (hcs : cs.all A.isWordChar = true) :
    Lexes A cs (One .symbol (String.ofList cs)) := by
  rw [List.all_eq_true] at hcs
  refine ⟨exists_getLast?_of_forall hne fun x hx => Alphabet.isBlank_of_isWordChar (hcs x hx),
    fun i => ⟨_, ⟨i, rfl⟩, fun rest hrest => ?_⟩⟩
  cases cs with
  | nil => exact absurd rfl hne
  | cons c w =>
    obtain ⟨hc, hw⟩ := List.forall_mem_cons.mp hcs
    exact scan_word hc hw fun x hx => (hrest x hx).1

theorem lexes_operatorChars (hne : cs ≠ []) (hcs : cs.all isOperatorChar = true) :
    Lexes A cs (One (operatorKind cs) (String.ofList cs)) := by
  rw [List.all_eq_true] at hcs
  refine ⟨exists_getLast?_of_forall hne fun x hx => (classes_of_isOperatorChar A (hcs x hx)).1,
    fun i => ⟨_, ⟨i, rfl⟩, fun rest hrest => ?_⟩⟩
  cases cs with
  | nil => exact absurd rfl hne
  | cons c w =>
    obtain ⟨hc, hw⟩ := List.forall_mem_cons.mp hcs
    exact scan_operator hc hw fun x hx => (hrest x hx).2

theorem lexes_symbolChars (h : SymbolChars A cs) : Lexes A cs (One .symbol (String.ofList cs)) := by
  obtain ⟨hne, hword | ⟨hop, hkind⟩⟩ := h
  · exact lexes_wordChars hne hword
  · rw [← hkind]
    exact lexes_operatorChars hne hop

theorem SymbolChars.isBlank_eq (h : SymbolChars A cs) : ∀ x ∈ cs, A.isBlank x = false := by
  intro x hx
  rcases h.2 with hword | ⟨hop, -⟩
  · exact Alphabet.isBlank_of_isWordChar (List.all_eq_true.mp hword x hx)
  · exact (classes_of_isOperatorChar A (List.all_eq_true.mp hop x hx)).1

theorem lexes_holeChars (h : HoleChars A cs) :
    Lexes A ('#' :: cs) (One .hole (String.ofList cs)) := by
  obtain ⟨hne, hname⟩ := h
  rw [List.all_eq_true] at hname
  have hblank : ∀ x ∈ cs, A.isBlank x = false := fun x hx =>
    Alphabet.isBlank_of_isWordChar (Alphabet.isWordChar_of_isNameChar (hname x hx))
  refine ⟨exists_getLast?_of_forall (List.cons_ne_nil _ _)
    (List.forall_mem_cons.mpr ⟨(classes_hash A).1, hblank⟩),
    fun i => ⟨_, ⟨i, rfl⟩, fun rest hrest => ?_⟩⟩
  refine scan_hole hne hname fun x hx => ?_
  by_contra hx'
  have hword := Alphabet.isWordChar_of_isNameChar (Bool.not_eq_false _ ▸ hx')
  rw [(hrest x hx).1] at hword
  cases hword

theorem lexes_single (hc : singleKind? c = some k) : Lexes A [c] (One k (String.singleton c)) :=
  ⟨⟨c, rfl, (classes_of_singleKind? A hc).1⟩, fun i => ⟨_, ⟨i, rfl⟩, fun _ _ => scan_single hc⟩⟩

theorem Lexes.blank_cons (h : Lexes A cs P) (hc : A.isBlank c = true) : Lexes A (c :: cs) P := by
  obtain ⟨⟨d, hlast, hd⟩, hcut⟩ := h
  refine ⟨⟨d, ?_, hd⟩, fun i => ?_⟩
  · rw [List.getLast?_cons, hlast]
    rfl
  · obtain ⟨ts, hts, hcut⟩ := hcut (i + 1)
    refine ⟨ts, hts, fun rest hrest => ?_⟩
    rw [List.cons_append, scan_blank hc, hcut rest hrest, List.length_cons,
      Nat.add_comm cs.length, Nat.add_assoc]

/-- A sign that is a token by itself needs no blank behind it. -/
theorem Lexes.single_cons (hc : singleKind? c = some k) (h : Lexes A cs P) :
    Lexes A (c :: cs) fun vs => ∃ i ts, vs = ⟨k, String.singleton c, i⟩ :: ts ∧ P ts := by
  obtain ⟨⟨d, hlast, hd⟩, hcut⟩ := h
  refine ⟨⟨d, ?_, hd⟩, fun i => ?_⟩
  · rw [List.getLast?_cons, hlast]
    rfl
  · obtain ⟨ts, hts, hcut⟩ := hcut (i + 1)
    refine ⟨_, ⟨i, ts, rfl, hts⟩, fun rest hrest => ?_⟩
    rw [List.cons_append, scan_single hc, hcut rest hrest, List.length_cons,
      Nat.add_comm cs.length, Nat.add_assoc]
    cases scan A (i + (1 + cs.length)) rest <;> rfl

/-- A part of a line with another one behind it, if no name goes on there. -/
theorem Lexes.append (h : Lexes A cs P) (h' : Lexes A ds Q) (hds : Parted A ds) :
    Lexes A (cs ++ ds) fun vs => ∃ ts us, vs = ts ++ us ∧ P ts ∧ Q us := by
  obtain ⟨-, hcut⟩ := h
  obtain ⟨⟨c, hlast, hc⟩, hcut'⟩ := h'
  refine ⟨⟨c, ?_, hc⟩, fun i => ?_⟩
  · rw [List.getLast?_append, hlast]
    rfl
  · obtain ⟨ts, hts, hcut⟩ := hcut i
    obtain ⟨us, hus, hcut'⟩ := hcut' (i + cs.length)
    refine ⟨_, ⟨ts, us, rfl, hts, hus⟩, fun rest hrest => ?_⟩
    rw [List.append_assoc, hcut _ (hds.append hrest), hcut' rest hrest, List.length_append,
      Nat.add_assoc]
    cases scan A (i + (cs.length + ds.length)) rest with
    | error e => rfl
    | ok vs => simp [Except.map]

/-! ## Phrases -/

open Phrase (DerivesList)

variable {a b : Object} {as : List Object} {lv : Level} {join : Object → Object → Object}

theorem isBlank_space : Alphabet.unicode.isBlank ' ' = true := by decide

theorem parted_cons (hc : c ∈ [' ', '(', ')', ',']) (cs : List Char) :
    Parted .unicode (c :: cs) := by
  have hall : [' ', '(', ')', ','].all
      (fun c => !Alphabet.unicode.isWordChar c && !isOperatorChar c) = true := by
    decide
  rintro x ⟨⟩
  simpa using List.all_eq_true.mp hall c hc

theorem lexes_joined {op : List Char} (ha : Lexes .unicode cs (lv.operand.Derives · a))
    (hop : Lexes .unicode op fun ts => ∃ t, ts = [t] ∧ Level.Joins t lv join)
    (hb : Lexes .unicode ds ((Phrase.level lv).Derives · b)) :
    Lexes .unicode (cs ++ ' ' :: (op ++ ' ' :: ds)) ((Phrase.level lv).Derives · (join a b)) := by
  have hright := hop.append (hb.blank_cons isBlank_space) (parted_cons (by simp) ds)
  refine (ha.append (hright.blank_cons isBlank_space) (parted_cons (by simp) _)).mono ?_
  rintro vs ⟨ts, us, rfl, hts, -, us, rfl, ⟨t, rfl, ht⟩, hus⟩
  exact .joined hts ht hus

theorem lexes_group (ha : Lexes .unicode cs ((Phrase.level .composition).Derives · a)) :
    Lexes .unicode ('(' :: (cs ++ [')'])) (Phrase.primary.Derives · a) := by
  have hclose := ha.append (lexes_single (c := ')') rfl) (parted_cons (by simp) [])
  refine (hclose.single_cons (c := '(') rfl).mono ?_
  rintro vs ⟨i, ts, rfl, ts, -, rfl, hts, j, rfl⟩
  exact .group rfl hts rfl

/-- The level of the rules with a symbol. -/
def ruleLevel (s : String) : Level := if Symbol.isOperator s then .operatorRule else .wordRule

theorem lexes_ruleSymbol {s : String} (hs : SymbolChars .unicode s.toList) :
    Lexes .unicode s.toList fun ts =>
      ∃ t, ts = [t] ∧ Level.Joins t (ruleLevel s) (Expr.rule · s ·) := by
  refine (lexes_symbolChars hs).mono ?_
  rintro ts ⟨i, rfl⟩
  refine ⟨_, rfl, ?_⟩
  rw [String.ofList_toList, ruleLevel]
  split
  · rename_i hop
    exact .operator rfl hop
  · rename_i hop
    exact .word rfl (by simpa using hop)

theorem lexes_sign {s : String} (hne : s.toList ≠ []) (hs : s.toList.all isOperatorChar = true)
    (hjoins : ∀ i, Level.Joins ⟨operatorKind s.toList, s, i⟩ lv join) :
    Lexes .unicode s.toList fun ts => ∃ t, ts = [t] ∧ Level.Joins t lv join := by
  refine (lexes_operatorChars hne hs).mono ?_
  rintro ts ⟨i, rfl⟩
  rw [String.ofList_toList]
  exact ⟨_, rfl, hjoins i⟩

theorem lexes_bar :
    Lexes .unicode "|".toList fun ts => ∃ t, ts = [t] ∧ Level.Joins t .composition Expr.comp := by
  have hchars : "|".toList = ['|'] := by decide
  rw [hchars]
  refine (lexes_single rfl).mono ?_
  rintro ts ⟨i, rfl⟩
  exact ⟨_, rfl, .bar rfl⟩

theorem lexes_const {f : String} (hf : SymbolChars .unicode f.toList) :
    Lexes .unicode f.toList (Phrase.primary.Derives · (.const f)) := by
  refine (lexes_symbolChars hf).mono ?_
  rintro vs ⟨i, rfl⟩
  rw [String.ofList_toList]
  exact .const rfl

theorem lexes_var {x : String} (hx : HoleChars .unicode x.toList) :
    Lexes .unicode ('#' :: x.toList) (Phrase.primary.Derives · (.var x)) := by
  refine (lexes_holeChars hx).mono ?_
  rintro vs ⟨i, rfl⟩
  rw [String.ofList_toList]
  exact .hole rfl

theorem lexes_call {f : String} (hf : SymbolChars .unicode f.toList)
    (has : Lexes .unicode cs (DerivesList · as)) :
    Lexes .unicode (f.toList ++ '(' :: (cs ++ [')'])) (Phrase.primary.Derives · (.term f as)) := by
  have hclose := has.append (lexes_single (c := ')') rfl) (parted_cons (by simp) [])
  have hopen := hclose.single_cons (c := '(') rfl
  refine ((lexes_symbolChars hf).append hopen (parted_cons (by simp) _)).mono ?_
  rintro vs ⟨-, -, rfl, ⟨i, rfl⟩, j, -, rfl, ts, -, rfl, hts, l, rfl⟩
  rw [String.ofList_toList]
  exact .call rfl rfl hts rfl

theorem lexes_one (ha : Lexes .unicode cs ((Phrase.level .composition).Derives · a)) :
    Lexes .unicode cs (DerivesList · [a]) :=
  ha.mono fun _ => .one

theorem lexes_more (ha : Lexes .unicode cs ((Phrase.level .composition).Derives · a))
    (has : Lexes .unicode ds (DerivesList · as)) :
    Lexes .unicode (cs ++ ',' :: ' ' :: ds) (DerivesList · (a :: as)) := by
  have hcomma := (has.blank_cons isBlank_space).single_cons (c := ',') rfl
  refine (ha.append hcomma (parted_cons (by simp) _)).mono ?_
  rintro vs ⟨ts, -, rfl, hts, i, us, rfl, hus⟩
  exact .more hts rfl hus

/-- One or more texts with commas between them. -/
theorem lexes_join {α : Type} {text : α → String} {value : α → Object} {xs : List α}
    (hne : xs ≠ []) (h : ∀ x ∈ xs,
      Lexes .unicode (text x).toList ((Phrase.level .composition).Derives · (value x))) :
    Lexes .unicode (Text.join ", " (xs.map text)).toList (DerivesList · (xs.map value)) := by
  induction xs with
  | nil => exact absurd rfl hne
  | cons x xs ih =>
    obtain ⟨hx, hxs⟩ := List.forall_mem_cons.mp h
    cases xs with
    | nil => exact lexes_one hx
    | cons y ys =>
      have hjoin : (Text.join ", " ((x :: y :: ys).map text)).toList =
          (text x).toList ++ ',' :: ' ' :: (Text.join ", " ((y :: ys).map text)).toList := by
        simp [Text.join]
      rw [hjoin]
      exact lexes_more hx (ih (List.cons_ne_nil _ _) hxs)

/-! ## Lines -/

theorem Lexes.trimBoth_eq (h : Lexes A cs P) (hhead : ∀ c ∈ cs.head?, A.isBlank c = false) :
    trimBoth A.isBlank cs = cs := by
  have hlast : ∀ c ∈ cs.reverse.head?, A.isBlank c = false := by
    obtain ⟨c, hc, hblank⟩ := h.last
    rw [List.head?_reverse, hc]
    rintro x ⟨⟩
    exact hblank
  have hstart : cs.dropWhile A.isBlank = cs := dropWhile_append_eq (w := []) nofun hhead
  have hend : cs.reverse.dropWhile A.isBlank = cs.reverse :=
    dropWhile_append_eq (w := []) nofun hlast
  rw [trimBoth, hstart, hend, List.reverse_reverse]

theorem Lexes.exists_tokenizeIn {s : String} (h : Lexes A s.toList P)
    (hhead : ∀ c ∈ s.toList.head?, A.isBlank c = false) :
    ∃ ts, tokenizeIn A s = .ok ts ∧ P ts := by
  obtain ⟨ts, hts, hcut⟩ := h.cut 0
  refine ⟨ts, ?_, hts⟩
  have hscan := hcut [] parted_nil
  rw [List.append_nil] at hscan
  rw [tokenizeIn, h.trimBoth_eq hhead, hscan, scan]
  simp [Except.map]

/-- Symbols by their characters. -/
theorem isSymbol_iff {s : String} : IsSymbol s ↔ SymbolChars .unicode s.toList := by
  constructor
  · rintro ⟨i, h⟩
    exact (wellCut_of_scan h _ (List.mem_singleton_self _)).1 rfl
  · intro h
    obtain ⟨ts, hts, i, rfl⟩ := (lexes_symbolChars h).exists_tokenizeIn fun c hc =>
      h.isBlank_eq c (List.mem_of_mem_head? hc)
    rw [String.ofList_toList] at hts
    exact ⟨i, hts⟩

/-- Hole names by their characters. -/
theorem isHoleName_iff {x : String} : IsHoleName x ↔ HoleChars .unicode x.toList := by
  constructor
  · rintro ⟨i, h⟩
    exact (wellCut_of_scan h _ (List.mem_singleton_self _)).2 rfl
  · intro h
    have hchars : ("#" ++ x).toList = '#' :: x.toList := by simp
    have hlexes : Lexes .unicode ("#" ++ x).toList (One .hole x) := by
      rw [hchars]
      have hhole := lexes_holeChars h
      rwa [String.ofList_toList] at hhole
    have hhead : ∀ c ∈ ("#" ++ x).toList.head?, Alphabet.unicode.isBlank c = false := by
      rw [hchars]
      rintro c ⟨⟩
      decide
    obtain ⟨ts, hts, i, rfl⟩ := hlexes.exists_tokenizeIn hhead
    exact ⟨i, hts⟩

/-- **A line is read as what its parts derive.** -/
theorem parse_of_lexes {s : String} (h : Lexes .unicode s.toList (DerivesList · as)) :
    Directive.parse ("X " ++ s) = .ok (some ⟨"X", as⟩) := by
  have hchars : ("X " ++ s).toList = ['X'] ++ ' ' :: s.toList := by simp
  have hline : Lexes .unicode ("X " ++ s).toList (Directive.Derives · ⟨"X", as⟩) := by
    rw [hchars]
    have hX : Lexes .unicode ['X'] (One .symbol "X") := lexes_symbolChars (by decide)
    refine (hX.append (h.blank_cons isBlank_space) (parted_cons (by simp) _)).mono ?_
    rintro vs ⟨-, us, rfl, ⟨i, rfl⟩, hus⟩
    exact .applied rfl hus
  have hhead : ∀ c ∈ ("X " ++ s).toList.head?, Alphabet.unicode.isBlank c = false := by
    rw [hchars]
    rintro c ⟨⟩
    decide
  obtain ⟨ts, hts, hderives⟩ := hline.exists_tokenizeIn hhead
  have hidle : Directive.isIdle (trimChars ("X " ++ s).toList) = false := by
    have htrim : trimChars ("X " ++ s).toList = ("X " ++ s).toList := hline.trimBoth_eq hhead
    rw [htrim, hchars]
    rfl
  rw [Directive.parse, hidle, tokenize, hts, Except.bind, Directive.readAll, hderives.read_eq]
  rfl

end Token

end RuleProver
