import RuleProver.Text.Ranges

/-!
# Blanks, words and lines

White space of any script separates tokens and is trimmed from the ends of a line. A text file is
a sequence of lines that end in a line feed, a carriage return, or the two together; in what is
typed, only a line feed ends a line.
-/

namespace RuleProver.Text

/-- The code points of white space, as inclusive ranges. -/
def blankRanges : List (Nat × Nat) :=
  [(0x9, 0xD), (0x1C, 0x20), (0x85, 0x85), (0xA0, 0xA0), (0x1680, 0x1680), (0x2000, 0x200A),
    (0x2028, 0x2029), (0x202F, 0x202F), (0x205F, 0x205F), (0x3000, 0x3000)]

/-- White space. -/
def isBlank (c : Char) : Bool := inRanges blankRanges c.toNat

/-- Drops the characters with property `p` from both ends. -/
def trimBoth (p : Char → Bool) (cs : List Char) : List Char :=
  ((cs.dropWhile p).reverse.dropWhile p).reverse

/-- The characters of a line without the white space around them. -/
def trimChars (cs : List Char) : List Char := trimBoth isBlank cs

/-- A text without the white space around it. -/
def trim (s : String) : String := String.ofList (trimChars s.toList)

/-- The first word of a text, and what follows the white space after it. -/
def firstWord (s : String) : String × Option String :=
  let cs := s.toList.dropWhile isBlank
  let rest := (cs.dropWhile (!isBlank ·)).dropWhile isBlank
  (String.ofList (cs.takeWhile (!isBlank ·)),
    if rest.isEmpty then none else some (String.ofList rest))

/-- Splits at every place where `p` holds; the separators are dropped. -/
def splitWhere (p : Char → Bool) : List Char → List (List Char)
  | [] => [[]]
  | c :: cs =>
    if p c then [] :: splitWhere p cs
    else
      match splitWhere p cs with
      | [] => [[c]]
      | w :: ws => (c :: w) :: ws

theorem splitWhere_ne_nil (p : Char → Bool) (cs : List Char) : splitWhere p cs ≠ [] := by
  induction cs with
  | nil => exact List.cons_ne_nil _ _
  | cons c cs ih =>
    rw [splitWhere]
    split
    · exact List.cons_ne_nil _ _
    · split <;> exact List.cons_ne_nil _ _

theorem splitWhere_cons_of_pos {p : Char → Bool} {c : Char} (hc : p c = true) (cs : List Char) :
    splitWhere p (c :: cs) = [] :: splitWhere p cs := by
  rw [splitWhere, if_pos hc]

theorem splitWhere_cons_of_neg {p : Char → Bool} {c : Char} {cs : List Char} (hc : p c = false)
    {w : List Char} {ws : List (List Char)} (h : splitWhere p cs = w :: ws) :
    splitWhere p (c :: cs) = (c :: w) :: ws := by
  rw [splitWhere, hc, if_neg Bool.false_ne_true, h]

/-- Where nothing separates, there is one part. -/
theorem splitWhere_eq_singleton {p : Char → Bool} {cs : List Char}
    (h : ∀ c ∈ cs, p c = false) : splitWhere p cs = [cs] := by
  induction cs with
  | nil => rfl
  | cons c cs ih =>
    obtain ⟨hc, hcs⟩ := List.forall_mem_cons.mp h
    exact splitWhere_cons_of_neg hc (ih hcs)

/-- The parts of a text with a separator in it are those before and those after it. -/
theorem splitWhere_append_cons {p : Char → Bool} {c : Char} (hc : p c = true) (cs ds : List Char) :
    splitWhere p (cs ++ c :: ds) = splitWhere p cs ++ splitWhere p ds := by
  induction cs with
  | nil => exact splitWhere_cons_of_pos hc ds
  | cons b cs ih =>
    cases hb : p b with
    | true =>
      rw [List.cons_append, splitWhere_cons_of_pos hb, splitWhere_cons_of_pos hb, ih,
        List.cons_append]
    | false =>
      obtain ⟨w, ws, hcs⟩ := List.exists_cons_of_ne_nil (splitWhere_ne_nil p cs)
      rw [hcs, List.cons_append] at ih
      rw [List.cons_append, splitWhere_cons_of_neg hb ih, splitWhere_cons_of_neg hb hcs]
      rfl

/-- Line endings all become line feeds. -/
def unifyLineEnds : List Char → List Char
  | [] => []
  | '\r' :: '\n' :: cs => '\n' :: unifyLineEnds cs
  | '\r' :: cs => '\n' :: unifyLineEnds cs
  | c :: cs => c :: unifyLineEnds cs

/-- The parts of a text that end in line feeds. A line feed at the very end of the text starts no
further part. -/
def lineFeedParts (cs : List Char) : List String :=
  let parts := splitWhere (· == '\n') cs
  let parts := if parts.getLast? == some [] then parts.dropLast else parts
  parts.map String.ofList

/-- The lines of a text file. -/
def lines (s : String) : List String := lineFeedParts (unifyLineEnds s.toList)

/-- The lines of a text that is typed: only a line feed ends a line. -/
def typedLines (s : String) : List String := lineFeedParts s.toList

end RuleProver.Text
