import RuleProver.Object.Printer
import RuleProver.Proofs.Instance
import RuleProver.Proofs.Lexing

/-!
# Reading back what was printed

Both printed forms of an object are phrases of the grammar, so the reader finds the object in them.
Only its notes are lost (`Object.unnoted`), and no comparison of objects looks at those.

In the form with all parentheses every part is a primary expression, and nothing is asked of the
object but names that are read as they are written (`Object.WellNamed`).

The displayed form leaves parentheses out. The precedences that it compares run against the ranks of
the grammar (`Phrase.precedence_lt_iff`), so an operand stands without parentheses only where the
grammar takes a phrase of its rank: on the left of an operator a phrase that binds more tightly, on
the right also one of the same level. But some terms are displayed with a sign that no line can
hold, and a rule whose symbol is neither a word nor an operator has the precedence of another level.
`Object.Legible` leaves these out.

## Main definitions

* `Object.WellNamed` — names and symbols that are read as they are written
* `Object.Legible` — objects that are displayed without unreadable signs
* `Object.Shown` — the displayed form is a phrase with the precedence of the object

## Main results

* `Object.parse_text` — the form with all parentheses is read back, and tells objects apart
* `Object.parse_display` — the displayed form of a legible object is read back
-/

namespace RuleProver

open Token (IsSymbol IsHoleName Lexes isSymbol_iff isHoleName_iff)

namespace Object

variable {o : Object}

/-- Holes, terms, rules and compositions whose names and symbols are read as they are written. -/
inductive WellNamed : Object → Prop
  | hole {m : Note} {x : String} (hx : IsHoleName x) : WellNamed (.hole m x)
  | term {m : Note} {f : String} {cs : List Object} (hf : IsSymbol f)
      (hcs : ∀ c ∈ cs, WellNamed c) : WellNamed (.node m (.term f) cs)
  | rule {m : Note} {s : String} {l r : Object} (hs : IsSymbol s) (hl : WellNamed l)
      (hr : WellNamed r) : WellNamed (.node m (.rule s) [l, r])
  | comp {m : Note} {l r : Object} (hl : WellNamed l) (hr : WellNamed r) :
      WellNamed (.node m .comp [l, r])

mutual

/-- The same object without notes. -/
def unnoted : Object → Object
  | .hole _ x => .var x
  | .node _ h cs => .node default h (unnotedAll cs)

/-- The same objects without notes. -/
def unnotedAll : List Object → List Object
  | [] => []
  | c :: cs => unnoted c :: unnotedAll cs

end

theorem unnotedAll_eq_map (cs : List Object) : unnotedAll cs = cs.map unnoted := by
  induction cs with
  | nil => rfl
  | cons c cs ih => rw [unnotedAll, ih, List.map_cons]

theorem unnoted_node (m : Note) (h : Head) (cs : List Object) :
    unnoted (.node m h cs) = .node default h (cs.map unnoted) := by
  rw [unnoted, unnotedAll_eq_map]

theorem erase_unnoted (o : Object) : o.unnoted.erase = o.erase := by
  induction o using Expr.induction_on_children with
  | hole m x => rfl
  | node m h cs ih =>
    rw [unnoted_node, Expr.erase_node, Expr.erase_node, List.map_map]
    exact congrArg _ (List.map_congr_left ih)

/-- The form without notes is the same object. -/
theorem same_unnoted (o : Object) : o.unnoted.same o = true :=
  (Expr.same_iff _ _).mpr (erase_unnoted o)

/-! ## The form with all parentheses -/

theorem texts_eq_map (cs : List Object) : texts cs = cs.map text := by
  induction cs with
  | nil => rw [texts, List.map_nil]
  | cons c cs ih => rw [texts, ih, List.map_cons]

theorem text_comp (m : Note) (l r : Object) :
    (text (.node m .comp [l, r])).toList =
      '(' :: (l.text.toList ++ ' ' :: ("|".toList ++ ' ' :: r.text.toList) ++ [')']) := by
  simp [text]

theorem text_call (m : Note) (f : String) {cs : List Object} (hcs : cs ≠ []) :
    (text (.node m (.term f) cs)).toList =
      f.toList ++ '(' :: ((Text.join ", " (cs.map text)).toList ++ [')']) := by
  rw [← texts_eq_map]
  cases cs with
  | nil => exact absurd rfl hcs
  | cons c cs => simp [text, Head.handle]

/-- Two operands and an operator in parentheses. -/
theorem lexes_parenthesized {lv : Level} {join : Object → Object → Object} {l op r : List Char}
    {a b : Object} (hl : Lexes .unicode l (Phrase.primary.Derives · a))
    (hop : Lexes .unicode op fun ts => ∃ t, ts = [t] ∧ Level.Joins t lv join)
    (hr : Lexes .unicode r (Phrase.primary.Derives · b)) :
    Lexes .unicode ('(' :: (l ++ ' ' :: (op ++ ' ' :: r) ++ [')']))
      (Phrase.primary.Derives · (join a b)) := by
  have hoperand := hl.mono fun ts hts => hts.loosen (q := lv.operand) (Nat.zero_le _)
  have hlevel := hr.mono fun ts hts => hts.loosen (q := .level lv) (Nat.zero_le _)
  refine Token.lexes_group ((Token.lexes_joined hoperand hop hlevel).mono fun ts hts => ?_)
  exact hts.loosen (Phrase.rank_le_composition _)

/-- The form with all parentheses is a primary expression. -/
theorem WellNamed.lexes_text (h : o.WellNamed) :
    Lexes .unicode o.text.toList (Phrase.primary.Derives · o.unnoted) := by
  induction h with
  | @hole m x hx =>
    have hchars : (text (.hole m x)).toList = '#' :: x.toList := by simp [text]
    rw [hchars]
    exact Token.lexes_var (isHoleName_iff.mp hx)
  | @term m f cs hf hcs ih =>
    rw [unnoted_node]
    by_cases hne : cs = []
    · subst hne
      have hchars : text (.node m (.term f) []) = f := by simp [text, Head.handle]
      rw [hchars]
      exact Token.lexes_const (isSymbol_iff.mp hf)
    · rw [text_call m f hne]
      refine Token.lexes_call (isSymbol_iff.mp hf) (Token.lexes_join hne fun c hc => ?_)
      exact (ih c hc).mono fun ts hts => hts.loosen (Nat.zero_le _)
  | @rule m s l r hs hl hr ihl ihr =>
    rw [unnoted_node, text_rule]
    exact lexes_parenthesized ihl (Token.lexes_ruleSymbol (isSymbol_iff.mp hs)) ihr
  | @comp m l r hl hr ihl ihr =>
    rw [unnoted_node, text_comp]
    exact lexes_parenthesized ihl Token.lexes_bar ihr

theorem WellNamed.parse_eq (h : o.WellNamed) :
    Directive.parse ("X " ++ o.text) = .ok (some ⟨"X", [o.unnoted]⟩) := by
  refine Token.parse_of_lexes (Token.lexes_one ?_)
  exact h.lexes_text.mono fun ts hts => hts.loosen (Nat.zero_le _)

/-- **Reading undoes printing with all parentheses**, so no two objects are printed alike. -/
theorem parse_text (h : o.WellNamed) :
    (Directive.parse ("X " ++ o.text) = .ok (some ⟨"X", [o.unnoted]⟩) ∧ o.unnoted.same o = true) ∧
      ∀ o' : Object, o'.WellNamed → o'.text = o.text → o'.same o = true := by
  refine ⟨⟨h.parse_eq, same_unnoted o⟩, fun o' h' htext => ?_⟩
  have hparse : Directive.parse ("X " ++ o.text) = .ok (some ⟨"X", [o'.unnoted]⟩) := by
    rw [← htext]
    exact h'.parse_eq
  have hunnoted : o'.unnoted = o.unnoted := by
    have heq := hparse.symm.trans h.parse_eq
    simpa using heq
  rw [Expr.same_iff, ← erase_unnoted o', hunnoted, erase_unnoted]

/-- Terms and a rule that are named by signs. -/
abbrev signs : Object :=
  .rule (.term "not" [.const "=>", .var "x_1"]) "_" (.comp (.const ".") (.const "naturals"))

theorem parse_text_of_signs :
    signs.WellNamed ∧ signs.text = "(not(=>, #x_1) _ (. | naturals))" ∧
      Directive.parse ("X " ++ signs.text) = .ok (some ⟨"X", [signs]⟩) := by
  have hnot : WellNamed (.term "not" [.const "=>", .var "x_1"]) := by
    refine .term (isSymbol_iff.mpr (by decide)) (List.forall_mem_cons.mpr ⟨?_, ?_⟩)
    · exact .term (isSymbol_iff.mpr (by decide)) nofun
    · exact List.forall_mem_singleton.mpr (.hole (isHoleName_iff.mpr (by decide)))
  have hcomp : WellNamed (.comp (.const ".") (.const "naturals")) :=
    .comp (.term (isSymbol_iff.mpr (by decide)) nofun) (.term (isSymbol_iff.mpr (by decide)) nofun)
  have hsigns : signs.WellNamed := .rule (isSymbol_iff.mpr (by decide)) hnot hcomp
  exact ⟨hsigns, by cbv, (parse_text hsigns).1.1⟩

end Object

/-! ## The displayed form -/

namespace Phrase

/-- The precedence with which a phrase is displayed. -/
def precedence : Phrase → Nat
  | .level .composition => Precedence.composition
  | .level .wordRule => Precedence.wordRule
  | .level .operatorRule => Precedence.operatorRule
  | .level .sum => Precedence.addition
  | .level .product => Precedence.multiplication
  | .level .quotient => Precedence.division
  | .primary => Precedence.application

theorem precedence_lt_iff {p q : Phrase} : p.precedence < q.precedence ↔ q.rank < p.rank := by
  have hsum : ∀ p : Phrase, p.precedence + 10 * p.rank = Precedence.application := by
    rintro (lv | _)
    · cases lv <;> rfl
    · rfl
  have hp := hsum p
  have hq := hsum q
  omega

end Phrase

namespace Object

variable {p : Phrase} {o l r a : Object}

theorem toList_parenthesized (s : String) :
    (parenthesized true s).toList = '(' :: (s.toList ++ [')']) := by
  simp [parenthesized]

/-- An operand, in parentheses if it needs them on its side of an operator. -/
theorem lexes_operand {q : Phrase} {t : String} (needs : Bool)
    (h : Lexes .unicode t.toList (p.Derives · a)) (hq : needs = false → p.rank ≤ q.rank) :
    Lexes .unicode (parenthesized needs t).toList (q.Derives · a) := by
  cases needs with
  | false => exact h.mono fun ts hts => hts.loosen (hq rfl)
  | true =>
    have hcomposition := h.mono fun ts hts => hts.loosen p.rank_le_composition
    rw [toList_parenthesized]
    exact (Token.lexes_group hcomposition).mono fun ts hts => hts.loosen (Nat.zero_le _)

/-- An object is displayed as a phrase with its precedence. -/
def Shown (o : Object) : Prop :=
  ∃ p : Phrase, p.precedence = o.shownPrecedence ∧
    Lexes .unicode (o.display 0).toList (p.Derives · o.unnoted)

theorem Shown.left (h : o.Shown) (lv : Level) :
    Lexes .unicode
      (parenthesized (o.needsParens (Phrase.level lv).precedence .left) (o.display 0)).toList
      (lv.operand.Derives · o.unnoted) := by
  obtain ⟨p, hp, h⟩ := h
  refine lexes_operand _ h fun hneeds => Phrase.rank_le_operand ?_
  rw [needsParens, ← hp] at hneeds
  have hlt : (Phrase.level lv).precedence < p.precedence := by
    simp at hneeds
    omega
  exact Phrase.precedence_lt_iff.mp hlt

theorem Shown.right (h : o.Shown) (lv : Level) :
    Lexes .unicode
      (parenthesized (o.needsParens (Phrase.level lv).precedence .right) (o.display 0)).toList
      ((Phrase.level lv).Derives · o.unnoted) := by
  obtain ⟨p, hp, h⟩ := h
  refine lexes_operand _ h fun hneeds => Nat.le_of_not_lt fun hrank => ?_
  rw [needsParens, ← hp] at hneeds
  have hlt := Phrase.precedence_lt_iff.mpr hrank
  simp [hlt] at hneeds

/-- Two displayed operands with an operator of a level between them. -/
theorem lexes_infixText {lv : Level} {join : Object → Object → Object} {op : String}
    (hl : l.Shown) (hop : Lexes .unicode op.toList fun ts => ∃ t, ts = [t] ∧ Level.Joins t lv join)
    (hr : r.Shown) :
    Lexes .unicode (infixText (" " ++ op ++ " ") (Phrase.level lv).precedence l (l.display 0) r
      (r.display 0)).toList ((Phrase.level lv).Derives · (join l.unnoted r.unnoted)) := by
  have h := Token.lexes_joined (hl.left lv) hop (hr.right lv)
  simpa [infixText] using h

/-- The signs between two arguments that are read back as the same term. -/
theorem exists_lexes_of_infixOperator? {f op : String} {q : Nat}
    (h : infixOperator? f = some (op, q)) (hand : f ≠ "and") (hor : f ≠ "or") :
    ∃ sign lv, op = " " ++ sign ++ " " ∧ q = (Phrase.level lv).precedence ∧
      Lexes .unicode sign.toList fun ts =>
        ∃ t, ts = [t] ∧ Level.Joins t lv fun a b => .term f [a, b] := by
  unfold infixOperator? at h
  split at h
  · cases h
    exact ⟨"+", .sum, rfl, rfl, Token.lexes_sign (by decide) (by decide) fun _ => .plus rfl rfl⟩
  · cases h
    exact ⟨"-", .sum, rfl, rfl, Token.lexes_sign (by decide) (by decide) fun _ => .minus rfl rfl⟩
  · cases h
    refine ⟨"*", .product, rfl, rfl, Token.lexes_sign (by decide) (by decide) fun _ => ?_⟩
    exact .times rfl rfl
  · cases h
    refine ⟨"/", .quotient, rfl, rfl, Token.lexes_sign (by decide) (by decide) fun _ => ?_⟩
    exact .slash rfl rfl
  · exact absurd rfl hand
  · exact absurd rfl hor
  · cases h

/-- Objects that are displayed without the logical signs and the signs of the sets of numbers, none
of which is read. A rule needs a symbol that is either a word or an operator. -/
inductive Legible : Object → Prop
  | hole {m : Note} {x : String} : Legible (.hole m x)
  | term {m : Note} {f : String} {cs : List Object}
      (hand : f = "and" → cs.length ≠ 2) (hor : f = "or" → cs.length ≠ 2)
      (hnot : f = "not" → cs.length ≠ 1) (hset : (constantSign? f).isSome → cs ≠ [])
      (hcs : ∀ c ∈ cs, Legible c) : Legible (.node m (.term f) cs)
  | rule {m : Note} {s : String} {l r : Object} (hs : Symbol.isWord s = !Symbol.isOperator s)
      (hl : Legible l) (hr : Legible r) : Legible (.node m (.rule s) [l, r])
  | comp {m : Note} {l r : Object} (hl : Legible l) (hr : Legible r) :
      Legible (.node m .comp [l, r])

theorem displays_eq_map (cs : List Object) : displays cs = cs.map (display 0) := by
  induction cs with
  | nil => rw [displays, List.map_nil]
  | cons c cs ih => rw [displays, ih, List.map_cons]

theorem display_comp (m : Note) (l r : Object) :
    display 0 (.node m .comp [l, r]) =
      infixText (" " ++ "|" ++ " ") Precedence.composition l (l.display 0) r (r.display 0) := by
  simp [display, parenthesized]

theorem display_operator (m : Note) {f op : String} {q : Nat} (l r : Object)
    (h : infixOperator? f = some (op, q)) :
    display 0 (.node m (.term f) [l, r]) = infixText op q l (l.display 0) r (r.display 0) := by
  simp [display, parenthesized, h]

theorem display_call (m : Note) {f : String} {cs : List Object} (hcs : cs ≠ [])
    (hnot : f = "not" → cs.length ≠ 1) (hcall : isInfix (.node m (.term f) cs) = false) :
    (display 0 (.node m (.term f) cs)).toList =
      f.toList ++ '(' :: ((Text.join ", " (cs.map (display 0))).toList ++ [')']) := by
  rw [← displays_eq_map]
  match cs with
  | [] => exact absurd rfl hcs
  | [c] =>
    have hne : f ≠ "not" := fun h => hnot h rfl
    simp [display, hne]
  | [l, r] =>
    have hnone : infixOperator? f = none := by simpa [isInfix] using hcall
    simp [display, hnone]
  | c :: d :: e :: cs => simp [display]

theorem shown_rule {m : Note} {s : String} (hs : IsSymbol s)
    (hclass : Symbol.isWord s = !Symbol.isOperator s) (hl : l.Shown) (hr : r.Shown) :
    Shown (.node m (.rule s) [l, r]) := by
  have hprecedence : (Phrase.level (Token.ruleLevel s)).precedence =
      shownPrecedence (.node m (.rule s) [l, r]) := by
    rw [shownPrecedence, precedence, Token.ruleLevel, hclass]
    cases Symbol.isOperator s <;> rfl
  refine ⟨_, hprecedence, ?_⟩
  have h := lexes_infixText hl (Token.lexes_ruleSymbol (isSymbol_iff.mp hs)) hr
  rw [hprecedence] at h
  rw [display_rule, unnoted_node]
  exact h

theorem shown_comp {m : Note} (hl : l.Shown) (hr : r.Shown) : Shown (.node m .comp [l, r]) := by
  refine ⟨.level .composition, rfl, ?_⟩
  have h := lexes_infixText hl Token.lexes_bar hr
  rw [display_comp, unnoted_node]
  exact h

theorem shown_operator {m : Note} {f op : String} {q : Nat} (hf : infixOperator? f = some (op, q))
    (hand : f ≠ "and") (hor : f ≠ "or") (hl : l.Shown) (hr : r.Shown) :
    Shown (.node m (.term f) [l, r]) := by
  obtain ⟨sign, lv, rfl, rfl, hsign⟩ := exists_lexes_of_infixOperator? hf hand hor
  refine ⟨.level lv, by simp [shownPrecedence, precedence, isInfix, hf], ?_⟩
  rw [display_operator m l r hf, unnoted_node]
  exact lexes_infixText hl hsign hr

theorem shown_call {m : Note} {f : String} {cs : List Object} (hf : IsSymbol f)
    (hset : (constantSign? f).isSome → cs ≠ []) (hnot : f = "not" → cs.length ≠ 1)
    (hcall : isInfix (.node m (.term f) cs) = false) (hcs : ∀ c ∈ cs, c.Shown) :
    Shown (.node m (.term f) cs) := by
  refine ⟨.primary, by simp [shownPrecedence, precedence, hcall, Phrase.precedence], ?_⟩
  rw [unnoted_node]
  by_cases hne : cs = []
  · subst hne
    have hsign : constantSign? f = none := by simpa using hset
    have hchars : display 0 (.node m (.term f) []) = f := by simp [display, hsign]
    rw [hchars]
    exact Token.lexes_const (isSymbol_iff.mp hf)
  · rw [display_call m hne hnot hcall]
    refine Token.lexes_call (isSymbol_iff.mp hf) (Token.lexes_join hne fun c hc => ?_)
    obtain ⟨p, -, hp⟩ := hcs c hc
    exact hp.mono fun ts hts => hts.loosen p.rank_le_composition

/-- The displayed form is a phrase, as long as its signs are read. -/
theorem WellNamed.shown (h : o.WellNamed) (h' : o.Legible) : o.Shown := by
  induction h with
  | @hole m x hx =>
    have hchars : (display 0 (.hole m x)).toList = '#' :: x.toList := by simp [display]
    refine ⟨.primary, rfl, ?_⟩
    rw [hchars]
    exact Token.lexes_var (isHoleName_iff.mp hx)
  | @term m f cs hf hcs ih =>
    obtain _ | ⟨hand, hor, hnot, hset, hcs'⟩ := h'
    have hshown : ∀ c ∈ cs, c.Shown := fun c hc => ih c hc (hcs' c hc)
    -- only with two arguments can a term be displayed with an operator
    by_cases hcall : isInfix (.node m (.term f) cs) = false
    · exact shown_call hf hset hnot hcall hshown
    · obtain _ | ⟨l, _ | ⟨r, _ | ⟨e, cs⟩⟩⟩ := cs
      · exact absurd rfl hcall
      · exact absurd rfl hcall
      · obtain ⟨⟨op, q⟩, hop⟩ : ∃ op, infixOperator? f = some op :=
          Option.isSome_iff_exists.mp (Bool.not_eq_false _ ▸ hcall)
        exact shown_operator hop (fun h => hand h rfl) (fun h => hor h rfl) (hshown l (by simp))
          (hshown r (by simp))
      · exact absurd rfl hcall
  | rule hs hl hr ihl ihr =>
    obtain _ | _ | ⟨hclass, hl', hr'⟩ := h'
    exact shown_rule hs hclass (ihl hl') (ihr hr')
  | comp hl hr ihl ihr =>
    obtain _ | _ | _ | ⟨hl', hr'⟩ := h'
    exact shown_comp (ihl hl') (ihr hr')

/-- **Reading undoes displaying** wherever the signs of the displayed form are read. -/
theorem parse_display (h : o.WellNamed) (h' : o.Legible) :
    Directive.parse ("X " ++ o.display 0) = .ok (some ⟨"X", [o.unnoted]⟩) ∧
      o.unnoted.same o = true := by
  obtain ⟨p, -, hp⟩ := h.shown h'
  refine ⟨Token.parse_of_lexes (Token.lexes_one ?_), same_unnoted o⟩
  exact hp.mono fun ts hts => hts.loosen p.rank_le_composition

/-- Operators of two levels, with the one pair of parentheses that they need. -/
abbrev operators : Object :=
  .rule (.term "minus" [.term "minus" [.var "x", .var "y"], .var "x"]) "=>" (.var "y")

theorem parse_display_of_operators :
    operators.WellNamed ∧ operators.Legible ∧ operators.display 0 = "(#x - #y) - #x => #y" ∧
      Directive.parse ("X " ++ operators.display 0) = .ok (some ⟨"X", [operators]⟩) := by
  have hx : WellNamed (.var "x") := .hole (isHoleName_iff.mpr (by decide))
  have hy : WellNamed (.var "y") := .hole (isHoleName_iff.mpr (by decide))
  have hnamed : ∀ {l r : Object}, l.WellNamed → r.WellNamed → WellNamed (.term "minus" [l, r]) :=
    fun hl hr => .term (isSymbol_iff.mpr (by decide)) (by simp [hl, hr])
  have hlegible : ∀ {l r : Object}, l.Legible → r.Legible → Legible (.term "minus" [l, r]) :=
    fun hl hr => .term nofun nofun nofun nofun (by simp [hl, hr])
  have h : operators.WellNamed := .rule (isSymbol_iff.mpr (by decide)) (hnamed (hnamed hx hy) hx) hy
  have h' : operators.Legible := .rule (by decide) (hlegible (hlegible .hole .hole) .hole) .hole
  exact ⟨h, h', by cbv, (parse_display h h').1⟩

end Object

end RuleProver
