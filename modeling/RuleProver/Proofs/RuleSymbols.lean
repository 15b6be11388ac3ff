import RuleProver.Proofs.ReadingBack

/-!
# Symbols of rules, as they are read and as they are shown

The reader takes a symbol for an operator if it has no character that a hole name may have. The
printer takes it for a word if something is left of it without underscores and full stops, and all
that is left are letters and numbers. The two agree on every symbol of a line but the *bare* ones:
those of underscores and full stops, with an underscore among them. A bare symbol is no operator for
the reader and no word for the printer, so a rule with it is shown with the precedence of operators
and read at the level of words.

## Main definitions

* `Symbol.isBare` — underscores and full stops only, with an underscore

## Main results

* `Symbol.alike_iff` — where reader and printer agree on a symbol
* `Token.classified_alike_iff` — the same for the symbols of a line, and what it means for rules
* `Object.parse_display_of_isBare` — a displayed rule that is read as another one
-/

namespace RuleProver

/-! ## Classes of symbols -/

namespace Symbol

open Text
open Token (SymbolChars)

variable {c : Char} {s : String}

/-- Underscores and full stops only, with an underscore among them. -/
def isBare (s : String) : Bool :=
  s.toList.all (fun c => c == '_' || c == '.') && s.toList.contains '_'

theorem not_sign_of_isAlphanumeric (h : isAlphanumeric c = true) : c ≠ '_' ∧ c ≠ '.' := by
  constructor <;> rintro rfl <;> exact absurd h (by decide)

theorem isAlphanumeric_of_isWordChar (h : Alphabet.unicode.isWordChar c = true)
    (hunderscore : c ≠ '_') (hstop : c ≠ '.') : isAlphanumeric c = true := by
  have halnum : Alphabet.unicode.isAlphanumeric c = true := by
    simpa [Alphabet.isWordChar, Alphabet.isNameChar, hunderscore, hstop] using h
  exact halnum

theorem isAlphanumeric_of_isOperatorChar (h : isOperatorChar c = true) :
    isAlphanumeric c = false :=
  Alphabet.unicode.isAlphanumeric_of_isPunctuation c (isPunctuation_of_isOperatorChar h).1

/-- For the printer, a symbol is a word if it has a letter or a number. -/
theorem isWord_iff (hs : SymbolChars .unicode s.toList) :
    isWord s = true ↔ ∃ c ∈ s.toList, isAlphanumeric c = true := by
  simp only [isWord, Bool.and_eq_true, Bool.not_eq_true', List.isEmpty_eq_false_iff_exists_mem,
    List.all_eq_true, List.mem_filter, bne_iff_ne]
  constructor
  · rintro ⟨⟨c, hc⟩, hall⟩
    exact ⟨c, hc.1, hall c hc⟩
  · rintro ⟨c, hc, halnum⟩
    refine ⟨⟨c, hc, not_sign_of_isAlphanumeric halnum⟩, ?_⟩
    rintro d ⟨hd, hunderscore, hstop⟩
    obtain ⟨-, hword | ⟨hop, -⟩⟩ := hs
    · exact isAlphanumeric_of_isWordChar (List.all_eq_true.mp hword d hd) hunderscore hstop
    · rw [isAlphanumeric_of_isOperatorChar (List.all_eq_true.mp hop c hc)] at halnum
      cases halnum

/-- For the reader, a symbol is no operator if it has a letter, a number or an underscore. -/
theorem isOperator_eq_false_iff (hs : SymbolChars .unicode s.toList) :
    isOperator s = false ↔ (∃ c ∈ s.toList, isAlphanumeric c = true) ∨ '_' ∈ s.toList := by
  have hname : isOperator s = false ↔ ∃ c ∈ s.toList, Alphabet.unicode.isNameChar c = true := by
    simp [isOperator, hs.1]
  rw [hname]
  constructor
  · rintro ⟨c, hc, h⟩
    rcases Bool.or_eq_true_iff.mp h with halnum | hunderscore
    · exact .inl ⟨c, hc, halnum⟩
    · exact .inr (beq_iff_eq.mp hunderscore ▸ hc)
  · rintro (⟨c, hc, halnum⟩ | hunderscore)
    · exact ⟨c, hc, Bool.or_eq_true_iff.mpr (.inl halnum)⟩
    · exact ⟨'_', hunderscore, by decide⟩

/-- A symbol is bare if it has an underscore, but no letter and no number. -/
theorem isBare_iff (hs : SymbolChars .unicode s.toList) :
    isBare s = true ↔ '_' ∈ s.toList ∧ ¬∃ c ∈ s.toList, isAlphanumeric c = true := by
  simp only [isBare, Bool.and_eq_true, List.all_eq_true, Bool.or_eq_true, beq_iff_eq,
    List.contains_iff_mem]
  constructor
  · rintro ⟨hall, hunderscore⟩
    refine ⟨hunderscore, ?_⟩
    rintro ⟨c, hc, halnum⟩
    have hsigns := not_sign_of_isAlphanumeric halnum
    exact (hall c hc).elim hsigns.1 hsigns.2
  · rintro ⟨hunderscore, hnone⟩
    refine ⟨fun c hc => ?_, hunderscore⟩
    obtain ⟨-, hword | ⟨hop, -⟩⟩ := hs
    · by_contra hsign
      rw [not_or] at hsign
      exact hnone ⟨c, hc,
        isAlphanumeric_of_isWordChar (List.all_eq_true.mp hword c hc) hsign.1 hsign.2⟩
    · exact absurd (List.all_eq_true.mp hop '_' hunderscore) (by decide)

/-- **Reader and printer agree on all symbols that are not bare.** -/
theorem alike_iff (hs : SymbolChars .unicode s.toList) :
    (isWord s = true ↔ isOperator s = false) ↔ isBare s = false := by
  rw [Bool.eq_false_iff (b := isBare s), Ne, isWord_iff hs, isOperator_eq_false_iff hs,
    isBare_iff hs]
  generalize (∃ c ∈ s.toList, isAlphanumeric c = true) = letters
  tauto

theorem classes_of_isBare (hs : SymbolChars .unicode s.toList) (h : isBare s = true) :
    isWord s = false ∧ isOperator s = false := by
  obtain ⟨hunderscore, hnone⟩ := (isBare_iff hs).mp h
  exact ⟨Bool.eq_false_iff.mpr fun hword => hnone ((isWord_iff hs).mp hword),
    (isOperator_eq_false_iff hs).mpr (.inr hunderscore)⟩

theorem isWord_of_isOperator (hs : SymbolChars .unicode s.toList) (h : isOperator s = true) :
    isWord s = false := by
  rw [Bool.eq_false_iff, Ne, isWord_iff hs]
  intro hex
  rw [(isOperator_eq_false_iff hs).mpr (.inl hex)] at h
  cases h

end Symbol

/-! ## Rules -/

namespace Token

variable {line : String} {ts : List Token} {t : Token}

/-- A rule is shown with the precedence of the level at which its symbol is read exactly if reader
and printer agree on the symbol. -/
theorem precedence_eq_ruleLevel_iff (s : String) (l r : Object) :
    Object.precedence false (.rule l s r) = (Phrase.level (ruleLevel s)).precedence ↔
      (Symbol.isWord s = true ↔ Symbol.isOperator s = false) := by
  rw [Object.precedence, ruleLevel]
  cases Symbol.isWord s <;> cases Symbol.isOperator s <;>
    simp [Phrase.precedence, Precedence.wordRule, Precedence.operatorRule]

/-- **Reader and printer agree on the symbols of a line**, and so on the rules with them, exactly
where these are not bare. -/
theorem classified_alike_iff (hline : tokenize line = .ok ts) (ht : t ∈ ts)
    (hkind : t.kind = .symbol) :
    ((Symbol.isWord t.value = true ↔ Symbol.isOperator t.value = false) ↔
        Symbol.isBare t.value = false) ∧
      ∀ l r : Object, Object.precedence false (.rule l t.value r) =
          (Phrase.level (ruleLevel t.value)).precedence ↔ Symbol.isBare t.value = false := by
  have hchars : SymbolChars .unicode t.value.toList := (wellCut_of_scan hline t ht).1 hkind
  refine ⟨Symbol.alike_iff hchars, fun l r => ?_⟩
  rw [precedence_eq_ruleLevel_iff, Symbol.alike_iff hchars]

theorem tokenize_wordRule :
    tokenize "A _.1 B" = .ok [⟨.symbol, "A", 0⟩, ⟨.symbol, "_.1", 2⟩, ⟨.symbol, "B", 6⟩] := by
  cbv

/-- One number among underscores and full stops is enough. -/
theorem classified_alike_of_number :
    (Symbol.isWord "_.1" = true ↔ Symbol.isOperator "_.1" = false) ∧
      Object.precedence false (.rule (.const "A") "_.1" (.const "B")) =
        (Phrase.level (ruleLevel "_.1")).precedence := by
  obtain ⟨halike, hprecedence⟩ :=
    classified_alike_iff (t := ⟨.symbol, "_.1", 2⟩) tokenize_wordRule (by simp) rfl
  exact ⟨halike.mpr (by decide), (hprecedence _ _).mpr (by decide)⟩

/-- An underscore alone is no operator for the reader and no word for the printer. -/
theorem underscore_unalike :
    tokenize "_" = .ok [⟨.symbol, "_", 0⟩] ∧
      ¬(Symbol.isWord "_" = true ↔ Symbol.isOperator "_" = false) :=
  ⟨by cbv, by decide⟩

end Token

namespace Object

open Token (IsSymbol Lexes isSymbol_iff)

variable {a b c : Object} {op s : String}

/-- The characters of an operand on one side of an operator. -/
def operandChars (o : Object) (side : Side) : List Char :=
  (parenthesized (o.needsParens Precedence.operatorRule side) (o.display 0)).toList

theorem toList_display_of_isWord (hs : Symbol.isWord s = false) (l r : Object) :
    (display 0 (.rule l s r)).toList =
      l.operandChars .left ++ ' ' :: (s.toList ++ ' ' :: r.operandChars .right) := by
  have hprecedence : precedence false (.rule l s r) = Precedence.operatorRule := by
    rw [precedence, hs]
    rfl
  rw [display_rule, hprecedence]
  simp [infixText, operandChars]

/-- Of two rules with equal precedence, the right one needs no parentheses. -/
theorem operandChars_of_isWord (hs : Symbol.isWord s = false) (l r : Object) :
    operandChars (.rule l s r) .right = (display 0 (.rule l s r)).toList := by
  have hneeds : needsParens (.rule l s r) Precedence.operatorRule .right = false := by
    simp [needsParens, shownPrecedence, precedence, hs]
  rw [operandChars, hneeds]
  rfl

/-- **A rule that is read as another one.** Behind an operator, a rule with a bare symbol is
displayed without parentheses, and then the operator is read first. -/
theorem parse_display_of_isBare (ha : a.Shown) (hb : b.Shown) (hc : c.Shown) (hop : IsSymbol op)
    (hoperator : Symbol.isOperator op = true) (hs : IsSymbol s) (hbare : Symbol.isBare s = true) :
    Directive.parse ("X " ++ display 0 (.rule a op (.rule b s c))) =
      .ok (some ⟨"X", [.rule (.rule a.unnoted op b.unnoted) s c.unnoted]⟩) := by
  have hopWord := Symbol.isWord_of_isOperator (isSymbol_iff.mp hop) hoperator
  obtain ⟨hword, hnot⟩ := Symbol.classes_of_isBare (isSymbol_iff.mp hs) hbare
  have hopSymbol := Token.lexes_ruleSymbol (isSymbol_iff.mp hop)
  have hbareSymbol := Token.lexes_ruleSymbol (isSymbol_iff.mp hs)
  rw [Token.ruleLevel, if_pos hoperator] at hopSymbol
  rw [Token.ruleLevel, if_neg (by simp [hnot])] at hbareSymbol
  -- what stands before the bare symbol is a rule with the operator
  have hleft : Lexes .unicode
      (a.operandChars .left ++ ' ' :: (op.toList ++ ' ' :: b.operandChars .left))
      (Level.wordRule.operand.Derives · (.rule a.unnoted op b.unnoted)) :=
    Token.lexes_joined (ha.left .operatorRule) hopSymbol
      ((hb.left .operatorRule).mono fun ts hts => hts.loosen (Phrase.rank_operand_lt _).le)
  have hright : Lexes .unicode (c.operandChars .right)
      ((Phrase.level .wordRule).Derives · c.unnoted) :=
    (hc.right .operatorRule).mono fun ts hts => hts.loosen (by decide)
  have hwhole := Token.lexes_joined hleft hbareSymbol hright
  have hchars : (display 0 (.rule a op (.rule b s c))).toList =
      (a.operandChars .left ++ ' ' :: (op.toList ++ ' ' :: b.operandChars .left)) ++
        ' ' :: (s.toList ++ ' ' :: c.operandChars .right) := by
    rw [toList_display_of_isWord hopWord, operandChars_of_isWord hword,
      toList_display_of_isWord hword]
    simp
  refine Token.parse_of_lexes (Token.lexes_one ?_)
  rw [hchars]
  exact hwhole.mono fun ts hts => hts.loosen (Phrase.rank_le_composition _)

example : display 0 (.rule (.const "A") "=>" (.rule (.const "B") "_" (.const "C"))) =
    "A => B _ C" := by cbv

end Object

end RuleProver
