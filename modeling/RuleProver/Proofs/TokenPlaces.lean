import RuleProver.Proofs.Lexing

/-!
# Where the tokens of a line stand

A line is cut into tokens or refused. What is cut stands where its tokens say: their texts follow
one another at the places that the tokens report, and only white space is left between them. What
is refused has a reason that can be seen in the line: a hole sign without a name, or a character
that no token has.

All of this is read off the induction along a line (`Token.scan_induction`), in which a token is one
step. A token is of one of four forms (`Token.Formed`), and these are told apart by the characters
that stand in the line; so white space of any kind may be put between the texts of tokens, and they
are read as before.

## Main definitions

* `Token.Malformed` — lines that are refused
* `Token.Placed` — the tokens of a line stand where they say, and nothing else is there
* `Token.Spaced` — texts with white space between them

## Main results

* `Token.scan_error_iff` — the lines that are refused
* `Token.placed_of_scan` — the places of the tokens
* `Token.lexes_spaced` — texts of tokens with white space between them
* `Token.tokenizeIn_faithful` — all three, for a whole line and any alphabet
* `Token.tokenize_faithful` — the same for the alphabet that is used
-/

namespace RuleProver

namespace Token

open Text RuleProver.Symbol

variable {A : Alphabet} {c : Char} {cs w rest gap : List Char} {i : Nat} {k : TokenKind} {t : Token}
  {ts : List Token}

/-! ## Texts of tokens -/

/-- What a token says, wherever it stands. -/
def reading (t : Token) : TokenKind × String := (t.kind, t.value)

/-- Wherever the text of a token stands, it is cut into that token. -/
theorem Formed.lexes (ht : t.Formed A) : Lexes A t.text (One t.kind t.value) := by
  cases ht with
  | word hne hw =>
    rw [text_of_ne_hole (by decide)]
    exact lexes_wordChars hne hw
  | operator hne hw =>
    rw [text_of_ne_hole (operatorKind_ne_hole _)]
    exact lexes_operatorChars hne hw
  | hole hw =>
    rw [text_hole]
    exact lexes_holeChars hw
  | single hc =>
    rw [text_of_ne_hole (kind_of_singleKind? hc).2]
    exact lexes_single hc

theorem Formed.exists_text_eq_cons (ht : t.Formed A) :
    ∃ c w, t.text = c :: w ∧ A.isBlank c = false := by
  cases ht with
  | word hne hw =>
    obtain ⟨c, w, rfl⟩ := List.exists_cons_of_ne_nil hne
    exact ⟨c, w, text_of_ne_hole (by decide) _ _,
      Alphabet.isBlank_of_isWordChar (List.all_eq_true.mp hw c (by simp))⟩
  | operator hne hw =>
    obtain ⟨c, w, rfl⟩ := List.exists_cons_of_ne_nil hne
    exact ⟨c, w, text_of_ne_hole (operatorKind_ne_hole _) _ _,
      (classes_of_isOperatorChar A (List.all_eq_true.mp hw c (by simp))).1⟩
  | @hole w i hw => exact ⟨'#', w, text_hole w i, (classes_hash A).1⟩
  | @single c k i hc =>
    exact ⟨c, [], text_of_ne_hole (kind_of_singleKind? hc).2 _ _, (classes_of_singleKind? A hc).1⟩

/-! ## Lines that are refused -/

/-- There is a hole sign without a name after it, or a character that no token has. -/
def Malformed (A : Alphabet) (cs : List Char) : Prop :=
  (∃ ds es, cs = ds ++ '#' :: es ∧ ∀ c ∈ es.head?, A.isNameChar c = false) ∨
    ∃ c ∈ cs, isReadable A c = false

theorem isReadable_of_isBlank (h : A.isBlank c = true) : isReadable A c = true := by
  simp [isReadable, h]

theorem isReadable_of_isWordChar (h : A.isWordChar c = true) : isReadable A c = true := by
  simp only [Alphabet.isWordChar, Alphabet.isNameChar, Bool.or_eq_true, beq_iff_eq] at h
  rcases h with (h | rfl) | rfl <;> simp [isReadable, *]

theorem isReadable_of_isOperatorChar (h : isOperatorChar c = true) : isReadable A c = true := by
  rw [isReadable, Bool.or_eq_true]
  exact .inr h

theorem isReadable_of_singleKind? (h : singleKind? c = some k) : isReadable A c = true := by
  rcases singleKind?_cases h with ⟨rfl, -⟩ | ⟨rfl, -⟩ | ⟨rfl, -⟩ | ⟨rfl, -⟩ <;> simp [isReadable]

/-- What has been read is of no further importance. -/
theorem malformed_cons_iff (hc : isReadable A c = true)
    (hnext : c = '#' → ∃ d ∈ cs.head?, A.isNameChar d = true) :
    Malformed A (c :: cs) ↔ Malformed A cs := by
  constructor
  · rintro (⟨ds, es, heq, hes⟩ | ⟨d, hd, hunreadable⟩)
    · rcases List.cons_eq_append_iff.mp heq with ⟨rfl, hhole⟩ | ⟨ds, rfl, rfl⟩
      · obtain ⟨rfl, rfl⟩ := List.cons.inj hhole
        obtain ⟨d, hd, hname⟩ := hnext rfl
        rw [hes d hd] at hname
        cases hname
      · exact .inl ⟨ds, es, rfl, hes⟩
    · rcases List.mem_cons.mp hd with rfl | hd
      · rw [hc] at hunreadable
        cases hunreadable
      · exact .inr ⟨d, hd, hunreadable⟩
  · rintro (⟨ds, es, rfl, hes⟩ | ⟨d, hd, hunreadable⟩)
    · exact .inl ⟨c :: ds, es, rfl, hes⟩
    · exact .inr ⟨d, List.mem_cons_of_mem c hd, hunreadable⟩

theorem malformed_append_iff (hw : ∀ x ∈ w, isReadable A x = true ∧ x ≠ '#') :
    Malformed A (w ++ rest) ↔ Malformed A rest := by
  induction w with
  | nil => rfl
  | cons c w ih =>
    obtain ⟨⟨hc, hhole⟩, hw⟩ := List.forall_mem_cons.mp hw
    rw [List.cons_append, malformed_cons_iff hc fun h => absurd h hhole]
    exact ih hw

theorem ne_hash_of_isWordChar (h : A.isWordChar c = true) : c ≠ '#' := by
  rintro rfl
  rw [(classes_hash A).2] at h
  cases h

/-- The text of a token is no reason to refuse a line. -/
theorem Formed.malformed_text_append_iff (ht : t.Formed A) :
    Malformed A (t.text ++ rest) ↔ Malformed A rest := by
  have hwordChars : ∀ {w : List Char}, w.all A.isWordChar = true →
      ∀ x ∈ w, isReadable A x = true ∧ x ≠ '#' := by
    intro w hw x hx
    have hword := List.all_eq_true.mp hw x hx
    exact ⟨isReadable_of_isWordChar hword, ne_hash_of_isWordChar hword⟩
  cases ht with
  | word hne hw =>
    rw [text_of_ne_hole (by decide)]
    exact malformed_append_iff (hwordChars hw)
  | operator hne hw =>
    rw [text_of_ne_hole (operatorKind_ne_hole _)]
    refine malformed_append_iff fun x hx => ?_
    have hop := List.all_eq_true.mp hw x hx
    exact ⟨isReadable_of_isOperatorChar hop, (classes_of_isOperatorChar A hop).2.2⟩
  | @hole w _ hw =>
    rw [text_hole, List.cons_append]
    obtain ⟨hne, hname⟩ := hw
    have hnext : ∃ d ∈ (w ++ rest).head?, A.isNameChar d = true := by
      obtain ⟨d, w, rfl⟩ := List.exists_cons_of_ne_nil hne
      exact ⟨d, rfl, List.all_eq_true.mp hname d (by simp)⟩
    rw [malformed_cons_iff (by simp [isReadable]) fun _ => hnext]
    refine malformed_append_iff (hwordChars (List.all_eq_true.mpr fun x hx => ?_))
    exact Alphabet.isWordChar_of_isNameChar (List.all_eq_true.mp hname x hx)
  | single hc =>
    rw [text_of_ne_hole (kind_of_singleKind? hc).2]
    refine malformed_append_iff fun x hx => ?_
    obtain rfl := List.mem_singleton.mp hx
    exact ⟨isReadable_of_singleKind? hc, (classes_of_singleKind? A hc).2.2.1⟩

theorem map_eq_error_iff {α β ε : Type} {f : α → β} {r : Except ε α} {e : ε} :
    r.map f = .error e ↔ r = .error e := by
  cases r <;> simp [Except.map]

/-- **The lines that are refused.** -/
theorem scan_error_iff (A : Alphabet) (i : Nat) (cs : List Char) :
    (∃ e, scan A i cs = .error e) ↔ Malformed A cs := by
  induction i, cs using scan_induction with
  | nil i => simp [Malformed]
  | blank i c cs r hblank ih =>
    rw [ih, malformed_cons_iff (isReadable_of_isBlank hblank)]
    rintro rfl
    rw [(classes_hash A).1] at hblank
    cases hblank
  | token t rest r ht ih => simp only [map_eq_error_iff, ih, ht.malformed_text_append_iff]
  | nameless i cs hcs => exact iff_of_true ⟨_, rfl⟩ (.inl ⟨[], cs, rfl, hcs⟩)
  | stray i c cs hc => exact iff_of_true ⟨_, rfl⟩ (.inr ⟨c, by simp, hc⟩)

/-! ## Places -/

/-- In characters that start at place `i` of a line, the tokens stand where they say, one after the
other, and no character but white space is left over. -/
structure Placed (A : Alphabet) (i : Nat) (cs : List Char) (ts : List Token) : Prop where
  found : ∀ t ∈ ts, ∃ ds es, cs = ds ++ t.text ++ es ∧ t.position = i + ds.length
  apart : ts.Pairwise fun t u => t.position + t.text.length ≤ u.position
  covered : ∀ n c, cs[n]? = some c → A.isBlank c = true ∨
    ∃ t ∈ ts, t.position ≤ i + n ∧ i + n < t.position + t.text.length

theorem Placed.found_append (h : Placed A (i + w.length) rest ts) :
    ∀ t ∈ ts, ∃ ds es, w ++ rest = ds ++ t.text ++ es ∧ t.position = i + ds.length := by
  intro t ht
  obtain ⟨ds, es, rfl, hposition⟩ := h.found t ht
  refine ⟨w ++ ds, es, by simp, ?_⟩
  rw [hposition, List.length_append]
  omega

theorem Placed.covered_append (h : Placed A (i + w.length) rest ts) {n : Nat} {c : Char}
    (hn : w.length ≤ n) (hc : (w ++ rest)[n]? = some c) : A.isBlank c = true ∨
      ∃ t ∈ ts, t.position ≤ i + n ∧ i + n < t.position + t.text.length := by
  rw [List.getElem?_append_right hn] at hc
  have hcovered := h.covered _ c hc
  rwa [Nat.add_assoc, Nat.add_sub_cancel' hn] at hcovered

theorem placed_nil (i : Nat) : Placed A i [] [] where
  found := by simp
  apart := .nil
  covered := by simp

theorem Placed.blank (h : Placed A (i + 1) cs ts) (hc : A.isBlank c = true) :
    Placed A i (c :: cs) ts where
  found := h.found_append (w := [c])
  apart := h.apart
  covered := by
    intro n d hd
    rcases Nat.eq_zero_or_pos n with rfl | hn
    · obtain rfl : c = d := by simpa using hd
      exact .inl hc
    · exact h.covered_append (w := [c]) hn hd

theorem Placed.token (h : Placed A (t.position + t.text.length) rest ts) :
    Placed A t.position (t.text ++ rest) (t :: ts) where
  found := List.forall_mem_cons.mpr ⟨⟨[], rest, rfl, rfl⟩, h.found_append⟩
  apart := by
    refine List.pairwise_cons.mpr ⟨fun u hu => ?_, h.apart⟩
    obtain ⟨ds, es, -, hposition⟩ := h.found u hu
    omega
  covered := by
    intro n c hc
    rcases Nat.lt_or_ge n t.text.length with hn | hn
    · exact .inr ⟨t, List.mem_cons_self, by omega, by omega⟩
    · refine (h.covered_append hn hc).imp_right ?_
      rintro ⟨u, hu, hcovered⟩
      exact ⟨u, List.mem_cons_of_mem t hu, hcovered⟩

/-- **The tokens stand where they say.** -/
theorem placed_of_scan (h : scan A i cs = .ok ts) : Placed A i cs ts := by
  induction i, cs using scan_induction generalizing ts with
  | nil i =>
    obtain rfl := Except.ok.inj h
    exact placed_nil i
  | blank i c cs r hblank ih => exact (ih h).blank hblank
  | token t rest r ht ih =>
    obtain ⟨us, hus, rfl⟩ := map_eq_ok_iff.mp h
    exact (ih hus).token
  | nameless i cs hcs => cases h
  | stray i c cs hc => cases h

/-! ## Spacing -/

/-- Texts with white space between them. -/
inductive Spaced (A : Alphabet) : List (List Char) → List Char → Prop
  | nil : Spaced A [] []
  | one (w : List Char) : Spaced A [w] w
  | more {w w' cs : List Char} {ws : List (List Char)} (gap : List Char) (hne : gap ≠ [])
      (hgap : gap.all A.isBlank = true) (h : Spaced A (w' :: ws) cs) :
      Spaced A (w :: w' :: ws) (w ++ (gap ++ cs))

theorem parted_of_isBlank (hc : A.isBlank c = true) (cs : List Char) : Parted A (c :: cs) := by
  rintro d ⟨⟩
  refine ⟨?_, ?_⟩ <;> by_contra hd
  · rw [Alphabet.isBlank_of_isWordChar (by simpa using hd)] at hc
    cases hc
  · rw [(classes_of_isOperatorChar A (by simpa using hd)).1] at hc
    cases hc

theorem Lexes.blanks_append {P : List Token → Prop} (h : Lexes A cs P)
    (hgap : gap.all A.isBlank = true) : Lexes A (gap ++ cs) P := by
  induction gap with
  | nil => exact h
  | cons c gap ih =>
    rw [List.all_cons, Bool.and_eq_true] at hgap
    exact (ih hgap.2).blank_cons hgap.1

/-- **White space between the texts of tokens makes no difference.** -/
theorem lexes_spaced (hts : ∀ t ∈ ts, t.Formed A) (hne : ts ≠ []) (h : Spaced A (ts.map text) cs) :
    Lexes A cs fun us => us.map reading = ts.map reading := by
  induction ts generalizing cs with
  | nil => exact absurd rfl hne
  | cons t ts ih =>
    obtain ⟨ht, hts⟩ := List.forall_mem_cons.mp hts
    have hone : ∀ us, One t.kind t.value us → us.map reading = [t.reading] := by
      rintro us ⟨i, rfl⟩
      rfl
    cases ts with
    | nil =>
      cases h
      exact ht.lexes.mono hone
    | cons u ts =>
      obtain _ | _ | ⟨gap, hgap, hblank, h⟩ := h
      obtain ⟨c, gap, rfl⟩ := List.exists_cons_of_ne_nil hgap
      have hc : A.isBlank c = true := List.all_eq_true.mp hblank c (by simp)
      have hrest := (ih hts (List.cons_ne_nil u ts) h).blanks_append hblank
      refine (ht.lexes.append hrest (parted_of_isBlank hc _)).mono ?_
      rintro - ⟨us, vs, rfl, hus, hvs⟩
      rw [List.map_append, hone us hus, hvs]
      rfl

theorem Spaced.exists_eq_append {ws : List (List Char)} (h : Spaced A (w :: ws) cs) :
    ∃ rest, cs = w ++ rest := by
  rcases h with _ | _ | _
  · exact ⟨[], by simp⟩
  · exact ⟨_, rfl⟩

theorem tokenizeIn_of_spaced {line : String} (hts : ∀ t ∈ ts, t.Formed A)
    (h : Spaced A (ts.map text) line.toList) :
    ∃ us, tokenizeIn A line = .ok us ∧ us.map reading = ts.map reading := by
  rcases ts with _ | ⟨t, ts⟩
  · have hline : line.toList = [] := by
      generalize line.toList = cs at h
      cases h
      rfl
    refine ⟨[], ?_, rfl⟩
    rw [tokenizeIn, hline]
    exact scan.eq_1 A 0
  · have hhead : ∀ c ∈ line.toList.head?, A.isBlank c = false := by
      obtain ⟨rest, hrest⟩ := h.exists_eq_append
      obtain ⟨c, w, htext, hc⟩ := (hts t (by simp)).exists_text_eq_cons
      rw [hrest, htext]
      rintro d ⟨⟩
      exact hc
    exact (lexes_spaced hts (List.cons_ne_nil t ts) h).exists_tokenizeIn hhead

/-- **Cutting a line into tokens loses and merges nothing**, whatever the alphabet. A line is
refused exactly if it has a hole sign without a name or a character that no token has. Otherwise the
texts of its tokens stand in it at their places, in order and apart, with only white space around
them, and with any other white space between them they are read alike. -/
theorem tokenizeIn_faithful (A : Alphabet) (line : String) :
    ((∃ e, tokenizeIn A line = .error e) ↔ Malformed A (trimBoth A.isBlank line.toList)) ∧
      ∀ ts, tokenizeIn A line = .ok ts → Placed A 0 (trimBoth A.isBlank line.toList) ts ∧
        ∀ line' : String, Spaced A (ts.map text) line'.toList →
          ∃ us, tokenizeIn A line' = .ok us ∧ us.map reading = ts.map reading := by
  refine ⟨scan_error_iff A 0 _, fun ts hts => ?_⟩
  exact ⟨placed_of_scan hts, fun line' hline' => tokenizeIn_of_spaced (formed_of_scan hts) hline'⟩

/-- **Cutting a line into tokens loses and merges nothing**, for the alphabet that is used. -/
theorem tokenize_faithful (line : String) :
    ((∃ e, tokenize line = .error e) ↔ Malformed .unicode (trimChars line.toList)) ∧
      ∀ ts, tokenize line = .ok ts → Placed .unicode 0 (trimChars line.toList) ts ∧
        ∀ line' : String, Spaced .unicode (ts.map text) line'.toList →
          ∃ us, tokenize line' = .ok us ∧ us.map reading = ts.map reading :=
  tokenizeIn_faithful .unicode line

/-- The tokens of a line in which almost nothing keeps them apart. -/
def glued : List Token :=
  [⟨.hole, "x", 0⟩, ⟨.symbol, ".y", 2⟩, ⟨.symbol, "->", 4⟩, ⟨.symbol, "2", 6⟩,
    ⟨.arithmetic, "-", 9⟩]

theorem tokenize_glued : tokenize " #x.y->2\t -" = .ok glued := by cbv

theorem spaced_glued : Spaced .unicode (glued.map text) "#x .y -> \t2 -".toList := by
  have hnumber : Spaced .unicode [['2'], ['-']] "2 -".toList :=
    .more [' '] (by decide) (by decide) (.one _)
  have harrow : Spaced .unicode [['-', '>'], ['2'], ['-']] "-> \t2 -".toList :=
    .more [' ', '\t'] (by decide) (by decide) hnumber
  exact .more [' '] (by decide) (by decide)
    (.more [' '] (by decide) (by decide) harrow)

theorem tokenize_faithful_of_glued :
    tokenize " #x.y->2\t -" = .ok glued ∧ Placed .unicode 0 "#x.y->2\t -".toList glued ∧
      ∃ us, tokenize "#x .y -> \t2 -" = .ok us ∧ us.map reading = glued.map reading := by
  have htrim : trimChars " #x.y->2\t -".toList = "#x.y->2\t -".toList := by decide
  obtain ⟨hplaced, hread⟩ := (tokenize_faithful _).2 glued tokenize_glued
  rw [htrim] at hplaced
  exact ⟨tokenize_glued, hplaced, hread _ spaced_glued⟩

end Token

end RuleProver
