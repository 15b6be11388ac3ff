import RuleProver.Proofs.Arguments

/-!
# The grammar of directives

The grammar says which lists of tokens are directives, and what they stand for, without saying how
they are read. It has a phrase for each level of precedence and one for primary expressions.

    directive    ::= SYMBOL [objects]
    objects      ::= composition (',' composition)*
    composition  ::= wordRule ['|' composition]
    wordRule     ::= operatorRule [word wordRule]
    operatorRule ::= sum [operator operatorRule]
    sum          ::= product [('+' | '-') sum]
    product      ::= quotient ['*' product]
    quotient     ::= primary ['/' quotient]
    primary      ::= SYMBOL | SYMBOL '(' objects ')' | HOLE | '(' composition ')'

A word is a symbol with a character that a hole name may hold, an operator is a symbol without one.

The reader never goes back. What it reads is a phrase of the grammar, because every step that
succeeds is a production. Conversely it finds every phrase, because the token after a phrase tells
that the phrase is over: it closes a parenthesis, separates objects, or joins the phrase to another
one at a level that binds less tightly (`Phrase.Ends`). An operator belongs to one level only, and
an opening parenthesis never follows a phrase, so the reader takes neither for a part of the phrase.

## Main definitions

* `Phrase.Derives`, `Phrase.DerivesList`, `Directive.Derives` — the grammar
* `Phrase.Ends` — what can follow a phrase

## Main results

* `Directive.derives_of_read` — what is read is derived
* `Phrase.Derives.reads` — what is derived is read
* `Directive.read_iff_derives` — the reader accepts the grammar, which is unambiguous
-/

namespace RuleProver

/-! ## Operators -/

namespace Level

/-- The productions of the levels: the tokens that join two objects at a level, and what they join
them to. -/
inductive Joins (t : Token) : Level → (Object → Object → Object) → Prop
  | bar (h : t.kind = .pipe) : Joins t .composition Expr.comp
  | word (h : t.kind = .symbol) (hs : Symbol.isOperator t.value = false) :
      Joins t .wordRule (Expr.rule · t.value ·)
  | operator (h : t.kind = .symbol) (hs : Symbol.isOperator t.value = true) :
      Joins t .operatorRule (Expr.rule · t.value ·)
  | plus (h : t.kind = .arithmetic) (hv : t.value = "+") :
      Joins t .sum fun a b => Expr.term "plus" [a, b]
  | minus (h : t.kind = .arithmetic) (hv : t.value = "-") :
      Joins t .sum fun a b => Expr.term "minus" [a, b]
  | times (h : t.kind = .arithmetic) (hv : t.value = "*") :
      Joins t .product fun a b => Expr.term "mult" [a, b]
  | slash (h : t.kind = .arithmetic) (hv : t.value = "/") :
      Joins t .quotient fun a b => Expr.term "div" [a, b]

variable {lv lv' : Level} {t : Token} {join join' : Object → Object → Object}

theorem Joins.operator?_eq (h : Joins t lv join) : lv.operator? t = some join := by
  cases h with
  | bar h => simp [operator?, h]
  | word h hs => simp [operator?, h, hs]
  | operator h hs => simp [operator?, h, hs]
  | plus h hv => simp [operator?, h, hv]
  | minus h hv => simp [operator?, h, hv]
  | times h hv => simp [operator?, h, hv]
  | slash h hv => simp [operator?, h, hv]

theorem joins_of_operator? (h : lv.operator? t = some join) : Joins t lv join := by
  unfold operator? at h
  split at h
  · cases h
    exact .bar ‹_›
  · split at h
    · cases h
    · rename_i hs
      cases h
      exact .word ‹_› (by simpa using hs)
  · split at h
    · cases h
      exact .operator ‹_› ‹_›
    · cases h
  · cases h
    exact .plus ‹_› ‹_›
  · cases h
    exact .minus ‹_› ‹_›
  · cases h
    exact .times ‹_› ‹_›
  · cases h
    exact .slash ‹_› ‹_›
  · cases h

/-- An operator belongs to one level. -/
theorem Joins.level_eq (h : Joins t lv join) (h' : Joins t lv' join') : lv = lv' := by
  cases h <;> cases h' <;> simp_all

theorem Joins.kind_mem (h : Joins t lv join) :
    t.kind ∈ [TokenKind.pipe, .symbol, .arithmetic] := by
  cases h with
  | bar h => simp [h]
  | word h | operator h => simp [h]
  | plus h | minus h | times h | slash h => simp [h]

/-- An operator is no sign of two expressions side by side. -/
theorem Joins.clashes_eq (h : Joins t lv join) (lv' : Level) : lv'.clashes t = false := by
  have hkind := h.kind_mem
  grind [clashes]

end Level

/-! ## Phrases -/

/-- The phrases of the grammar that stand for an object. -/
inductive Phrase where
  /-- An object at a level of precedence. -/
  | level (lv : Level)
  /-- A term, a hole or an object in parentheses. -/
  | primary

namespace Level

/-- The phrase that an operator of a level has on its left. -/
def operand : Level → Phrase
  | .composition => .level .wordRule
  | .wordRule => .level .operatorRule
  | .operatorRule => .level .sum
  | .sum => .level .product
  | .product => .level .quotient
  | .quotient => .primary

theorem operand_of_next?_eq_some {lv lv' : Level} (h : lv.next? = some lv') :
    lv.operand = .level lv' := by
  cases lv <;> cases h <;> rfl

theorem operand_of_next?_eq_none {lv : Level} (h : lv.next? = none) : lv.operand = .primary := by
  cases lv <;> first | rfl | cases h

end Level

namespace Phrase

mutual

/-- The tokens that make up a phrase, and the object that they stand for. -/
inductive Derives : Phrase → List Token → Object → Prop
  | operand {lv : Level} {ts : List Token} {a : Object} (ha : Derives lv.operand ts a) :
      Derives (.level lv) ts a
  | joined {lv : Level} {ts us : List Token} {t : Token} {a b : Object}
      {join : Object → Object → Object} (ha : Derives lv.operand ts a)
      (ht : Level.Joins t lv join) (hb : Derives (.level lv) us b) :
      Derives (.level lv) (ts ++ t :: us) (join a b)
  | const {t : Token} (ht : t.kind = .symbol) : Derives .primary [t] (.const t.value)
  | call {t op cl : Token} {ts : List Token} {args : List Object} (ht : t.kind = .symbol)
      (hop : op.kind = .openParen) (hargs : DerivesList ts args) (hcl : cl.kind = .closeParen) :
      Derives .primary (t :: op :: (ts ++ [cl])) (.term t.value args)
  | hole {t : Token} (ht : t.kind = .hole) : Derives .primary [t] (.var t.value)
  | group {op cl : Token} {ts : List Token} {a : Object} (hop : op.kind = .openParen)
      (ha : Derives (.level .composition) ts a) (hcl : cl.kind = .closeParen) :
      Derives .primary (op :: (ts ++ [cl])) a

/-- The tokens that make up one or more objects, separated by commas. -/
inductive DerivesList : List Token → List Object → Prop
  | one {ts : List Token} {a : Object} (ha : Derives (.level .composition) ts a) :
      DerivesList ts [a]
  | more {t : Token} {ts us : List Token} {a : Object} {as : List Object}
      (ha : Derives (.level .composition) ts a) (ht : t.kind = .comma)
      (has : DerivesList us as) : DerivesList (ts ++ t :: us) (a :: as)

end

/-- How many phrases bind more tightly. -/
def rank : Phrase → Nat
  | .level lv => lv.rank
  | .primary => 0

theorem rank_operand_lt (lv : Level) : lv.operand.rank < lv.rank := by
  cases lv <;> decide

/-- Between the operands of a level and the level itself there is no other phrase. -/
theorem rank_le_operand {p : Phrase} {lv : Level} (h : p.rank < lv.rank) :
    p.rank ≤ lv.operand.rank := by
  cases lv <;> exact Nat.le_of_lt_succ h

theorem rank_le_composition (p : Phrase) : p.rank ≤ (Phrase.level .composition).rank := by
  rcases p with lv | _
  · cases lv <;> decide
  · decide

/-- Phrases of one rank are the same. -/
theorem rank_injective {p q : Phrase} (h : p.rank = q.rank) : p = q := by
  match p, q with
  | .primary, .primary => rfl
  | .primary, .level lv => cases lv <;> cases h
  | .level lv, .primary => cases lv <;> cases h
  | .level lv, .level lv' => cases lv <;> cases lv' <;> first | rfl | cases h

/-- What binds more tightly is a phrase of every level above. -/
theorem Derives.loosen {p q : Phrase} {ts : List Token} {a : Object} (h : p.Derives ts a)
    (hpq : p.rank ≤ q.rank) : q.Derives ts a := by
  match q with
  | .primary =>
    obtain rfl : p = .primary := rank_injective (Nat.le_zero.mp hpq)
    exact h
  | .level lv =>
    rcases Nat.lt_or_eq_of_le hpq with hlt | heq
    · exact .operand (h.loosen (rank_le_operand hlt))
    · obtain rfl : p = .level lv := rank_injective heq
      exact h
termination_by q.rank
decreasing_by exact rank_operand_lt lv

end Phrase

namespace Directive

/-- The tokens that make up a directive. -/
inductive Derives : List Token → Directive → Prop
  | alone {t : Token} (ht : t.kind = .symbol) : Derives [t] ⟨t.value, []⟩
  | applied {t : Token} {ts : List Token} {args : List Object} (ht : t.kind = .symbol)
      (hargs : Phrase.DerivesList ts args) : Derives (t :: ts) ⟨t.value, args⟩

/-! ## What is read is derived -/

/-- Reads a phrase. -/
def readPhrase (p : Phrase) (ts : List Token) : Reading Object ts :=
  match p with
  | .level lv => readLevel lv ts
  | .primary => readPrimary ts

theorem readOperand_eq (lv : Level) (ts : List Token) :
    readOperand lv ts = readPhrase lv.operand ts := by
  cases lv <;> rfl

theorem exists_of_readClose {ts : List Token} {rest : Rest ts} (h : readClose ts = .ok rest) :
    ∃ t, t.kind = .closeParen ∧ ts = t :: rest.1 := by
  cases ts with
  | nil => cases h
  | cons t ts =>
    rw [readClose] at h
    split at h
    · rename_i ht
      cases h
      exact ⟨t, ht, rfl⟩
    · cases h

/-- The tokens before the rest are a phrase for what has been read. -/
def Consumes {α : Type} (D : List Token → α → Prop) (ts : List Token) (a : α)
    (rest : List Token) : Prop :=
  ∃ us, ts = us ++ rest ∧ D us a

/-- Reading at a level consumes phrases of the level if reading its operands and, further on, the
level itself does. -/
theorem consumes_of_readLevel {lv : Level} {ts : List Token} {t : Object} {rest : Rest ts}
    (h : readLevel lv ts = .ok (t, rest))
    (hoperand : ∀ left rest', readPhrase lv.operand ts = .ok (left, rest') →
      Consumes lv.operand.Derives ts left rest'.1)
    (hlevel : ∀ op more, (op :: more : List Token).length < ts.length →
      ∀ right rest'', readLevel lv more = .ok (right, rest'') →
        Consumes (Phrase.level lv).Derives more right rest''.1) :
    Consumes (Phrase.level lv).Derives ts t rest.1 := by
  rw [readLevel_eq, readOperand_eq, bind_eq_ok_iff] at h
  obtain ⟨⟨left, rest'⟩, hread, h⟩ := h
  obtain ⟨us, hus, hleft⟩ := hoperand left rest' hread
  rcases readJoined_cases h with
    ⟨rfl, rfl⟩ | ⟨op, more, join, right, rest'', hrest', hop, hright, rfl, hrest⟩
  · exact ⟨us, hus, .operand hleft⟩
  · have hlt : (op :: more).length < ts.length := hrest' ▸ rest'.2
    obtain ⟨vs, hvs, hright⟩ := hlevel op more hlt right rest'' hright
    refine ⟨us ++ op :: vs, ?_, .joined hleft (Level.joins_of_operator? hop) hright⟩
    calc ts = us ++ rest'.1 := hus
      _ = us ++ op :: (vs ++ rest''.1) := by rw [hrest', ← hvs]
      _ = us ++ op :: vs ++ rest.1 := by rw [hrest, List.append_assoc, List.cons_append]

/-- **What is read is derived**, whichever kind of phrase it is. -/
theorem consumes_of_read :
    (∀ lv ts, ∀ t rest, readLevel lv ts = .ok (t, rest) →
      Consumes (Phrase.level lv).Derives ts t rest.1) ∧
    (∀ ts, ∀ t rest, readPrimary ts = .ok (t, rest) →
      Consumes Phrase.primary.Derives ts t rest.1) ∧
    (∀ ts, ∀ args rest, readObjects ts = .ok (args, rest) →
      Consumes Phrase.DerivesList ts args rest.1) := by
  apply readLevel.mutual_induct
  -- a level with another one as its operands, and the one with primary expressions as its operands
  case case1 =>
    intro lv ts lv' hlv ihmore ih t rest h
    refine consumes_of_readLevel h ?_ ihmore
    rw [Level.operand_of_next?_eq_some hlv]
    exact ih
  case case2 =>
    intro lv ts hlv ihmore ih t rest h
    refine consumes_of_readLevel h ?_ ihmore
    rw [Level.operand_of_next?_eq_none hlv]
    exact ih
  -- no primary expression: no tokens, or a call without arguments
  case case3 =>
    intro t rest h
    rw [readPrimary] at h
    cases h
  case case4 =>
    intro f p x q t rest h
    rw [readPrimary] at h
    cases h
  -- a call, a constant, a hole, and an object in parentheses
  case case5 =>
    intro f p x q t' more ih t rest h
    rw [readPrimary, bind_eq_ok_iff] at h
    obtain ⟨⟨args, rest₁⟩, hargs, h⟩ := h
    obtain ⟨rest₂, hclose, h⟩ := bind_eq_ok_iff.mp h
    cases h
    obtain ⟨us, hus, hargs⟩ := ih args rest₁ hargs
    obtain ⟨cl, hcl, hrest⟩ := exists_of_readClose hclose
    refine ⟨⟨.symbol, f, p⟩ :: ⟨.openParen, x, q⟩ :: (us ++ [cl]), ?_, .call rfl rfl hargs hcl⟩
    simp [hus, hrest]
  case case6 =>
    intro f p more hclose hargs t rest h
    rw [readPrimary] at h
    · cases h
      exact ⟨[⟨.symbol, f, p⟩], rfl, .const rfl⟩
    · exact hclose
    · exact hargs
  case case7 =>
    intro x p more t rest h
    rw [readPrimary] at h
    cases h
    exact ⟨[⟨.hole, x, p⟩], rfl, .hole rfl⟩
  case case8 =>
    intro x p more ih t rest h
    rw [readPrimary, bind_eq_ok_iff] at h
    obtain ⟨⟨inner, rest₁⟩, hinner, h⟩ := h
    obtain ⟨rest₂, hclose, h⟩ := bind_eq_ok_iff.mp h
    cases h
    obtain ⟨us, hus, hinner⟩ := ih _ rest₁ hinner
    obtain ⟨cl, hcl, hrest⟩ := exists_of_readClose hclose
    refine ⟨⟨.openParen, x, p⟩ :: (us ++ [cl]), ?_, .group rfl hinner hcl⟩
    simp [hus, hrest]
  -- a token that no primary expression starts with
  case case9 =>
    intro t' tail h₁ h₂ h₃ h₄ h₅ t rest h
    rw [readPrimary] at h
    · cases h
    all_goals assumption
  -- a list of objects
  case case10 =>
    intro ts ihfirst ihmore args rest h
    rw [readObjects, bind_eq_ok_iff] at h
    obtain ⟨⟨first, rest'⟩, hfirst, h⟩ := h
    obtain ⟨us, hus, hf⟩ := ihfirst first rest' hfirst
    dsimp only at h
    split at h
    · rename_i x p more hlt
      obtain ⟨⟨others, rest''⟩, hothers, h⟩ := bind_eq_ok_iff.mp h
      cases h
      obtain ⟨vs, hvs, hothers⟩ := ihmore x p more hlt others rest'' hothers
      refine ⟨us ++ ⟨.comma, x, p⟩ :: vs, ?_, .more hf rfl hothers⟩
      simp [hus, ← hvs]
    · cases h
      exact ⟨us, hus, .one hf⟩

/-! ## What is derived is read -/

/-- A phrase is read off the start of the tokens, and the rest is left. -/
def Reads (p : Phrase) (ts : List Token) (a : Object) (rest : List Token) : Prop :=
  ∃ h, readPhrase p ts = .ok (a, ⟨rest, h⟩)

/-- One or more objects are read off the start of the tokens, and the rest is left. -/
def ReadsList (ts : List Token) (as : List Object) (rest : List Token) : Prop :=
  ∃ h, readObjects ts = .ok (as, ⟨rest, h⟩)

variable {lv : Level} {ts rest tail : List Token} {t op cl : Token} {a b : Object}
  {as : List Object} {join : Object → Object → Object}

theorem Reads.operand (ha : Reads lv.operand ts a rest)
    (hrest : ∀ t ∈ rest.head?, lv.clashes t = false ∧ lv.operator? t = none) :
    Reads (.level lv) ts a rest := by
  obtain ⟨hlt, ha⟩ := ha
  refine ⟨hlt, ?_⟩
  rw [readPhrase, readLevel_eq, readOperand_eq, ha]
  cases rest with
  | nil => rfl
  | cons t more =>
    obtain ⟨hclash, hop⟩ := hrest t rfl
    simp [readJoined, bind, Except.bind, pure, Except.pure, hclash, hop]

theorem Reads.joined (ha : Reads lv.operand ts a (t :: tail)) (ht : Level.Joins t lv join)
    (hb : Reads (.level lv) tail b rest) : Reads (.level lv) ts (join a b) rest := by
  obtain ⟨hlt, ha⟩ := ha
  obtain ⟨hlt', hb⟩ := hb
  rw [readPhrase] at hb
  refine ⟨Nat.lt_trans hlt' (Nat.lt_of_succ_lt hlt), ?_⟩
  rw [readPhrase, readLevel_eq, readOperand_eq, ha]
  simp [readJoined, bind, Except.bind, pure, Except.pure, ht.clashes_eq lv, ht.operator?_eq, hb]

theorem Reads.const (ht : t.kind = .symbol) (hrest : ∀ u ∈ rest.head?, u.kind ≠ .openParen) :
    Reads .primary (t :: rest) (.const t.value) rest := by
  obtain ⟨k, f, i⟩ := t
  cases ht
  refine ⟨Nat.lt_succ_self _, ?_⟩
  rw [readPhrase, readPrimary]
  · rfl
  · rintro o j rfl
    exact hrest _ rfl rfl
  · rintro o j u us rfl
    exact hrest _ rfl rfl

theorem Reads.hole (ht : t.kind = .hole) : Reads .primary (t :: rest) (.var t.value) rest := by
  obtain ⟨k, x, i⟩ := t
  cases ht
  refine ⟨Nat.lt_succ_self _, ?_⟩
  rw [readPhrase, readPrimary]
  rfl

theorem readClose_cons (hcl : cl.kind = .closeParen) :
    readClose (cl :: rest) = .ok ⟨rest, Nat.lt_succ_self _⟩ := by
  rw [readClose, if_pos hcl]

theorem Reads.group (hop : op.kind = .openParen)
    (ha : Reads (.level .composition) ts a (cl :: rest)) (hcl : cl.kind = .closeParen) :
    Reads .primary (op :: ts) a rest := by
  obtain ⟨k, o, i⟩ := op
  cases hop
  obtain ⟨hlt, ha⟩ := ha
  rw [readPhrase] at ha
  refine ⟨Nat.lt_succ_of_lt (Nat.lt_of_succ_lt hlt), ?_⟩
  rw [readPhrase, readPrimary, ha]
  simp [bind, Except.bind, pure, Except.pure, readClose_cons hcl]

theorem Reads.call (ht : t.kind = .symbol) (hop : op.kind = .openParen)
    (has : ReadsList ts as (cl :: rest)) (hcl : cl.kind = .closeParen) :
    Reads .primary (t :: op :: ts) (.term t.value as) rest := by
  obtain ⟨k, f, i⟩ := t
  cases ht
  obtain ⟨k, o, j⟩ := op
  cases hop
  obtain ⟨hlt, has⟩ := has
  cases ts with
  | nil => cases hlt
  | cons u us =>
    refine ⟨Nat.lt_succ_of_lt (Nat.lt_succ_of_lt (Nat.lt_of_succ_lt hlt)), ?_⟩
    rw [readPhrase, readPrimary, has]
    simp [bind, Except.bind, pure, Except.pure, readClose_cons hcl]

theorem ReadsList.one (ha : Reads (.level .composition) ts a rest)
    (hrest : ∀ u ∈ rest.head?, u.kind ≠ .comma) : ReadsList ts [a] rest := by
  obtain ⟨hlt, ha⟩ := ha
  rw [readPhrase] at ha
  refine ⟨hlt, ?_⟩
  rw [readObjects, ha]
  dsimp only [bind, Except.bind]
  split
  · rename_i heq
    cases heq
    exact absurd rfl (hrest _ rfl)
  · rfl

theorem ReadsList.more (ha : Reads (.level .composition) ts a (t :: tail))
    (ht : t.kind = .comma) (has : ReadsList tail as rest) : ReadsList ts (a :: as) rest := by
  obtain ⟨k, v, i⟩ := t
  cases ht
  obtain ⟨hlt, ha⟩ := ha
  obtain ⟨hlt', has⟩ := has
  rw [readPhrase] at ha
  refine ⟨Nat.lt_trans hlt' (Nat.lt_of_succ_lt hlt), ?_⟩
  rw [readObjects, ha]
  simp [bind, Except.bind, pure, Except.pure, has]

end Directive

namespace Phrase

open Directive (Reads ReadsList)

/-- A phrase is over before these tokens: there are none, or the first one closes a parenthesis,
separates objects, or joins the phrase to another one at a level that binds less tightly. -/
def Ends (p : Phrase) (rest : List Token) : Prop :=
  ∀ t ∈ rest.head?, t.kind = .closeParen ∨ t.kind = .comma ∨
    ∃ lv join, Level.Joins t lv join ∧ p.rank < lv.rank

variable {p : Phrase} {lv : Level} {rest : List Token}

theorem Ends.of_kind (h : ∀ t ∈ rest.head?, t.kind = .closeParen ∨ t.kind = .comma) :
    p.Ends rest := by
  intro t ht
  exact (h t ht).imp_right .inl

theorem ends_of_joins {t : Token} {join : Object → Object → Object} (ht : Level.Joins t lv join)
    (tail : List Token) : lv.operand.Ends (t :: tail) := by
  rintro t' ⟨⟩
  exact .inr (.inr ⟨lv, join, ht, rank_operand_lt lv⟩)

theorem Ends.operand (h : (Phrase.level lv).Ends rest) : lv.operand.Ends rest := by
  intro t ht
  rcases h t ht with hcl | hcomma | ⟨lv', join, hjoin, hrank⟩
  · exact .inl hcl
  · exact .inr (.inl hcomma)
  · exact .inr (.inr ⟨lv', join, hjoin, Nat.lt_trans (rank_operand_lt lv) hrank⟩)

/-- At the end of a phrase of a level there is no operator of the level. -/
theorem Ends.stops (h : (Phrase.level lv).Ends rest) :
    ∀ t ∈ rest.head?, lv.clashes t = false ∧ lv.operator? t = none := by
  intro t ht
  constructor
  · rcases h t ht with hcl | hcomma | ⟨lv', join, hjoin, -⟩
    · simp [Level.clashes, hcl]
    · simp [Level.clashes, hcomma]
    · exact hjoin.clashes_eq lv
  · rw [Option.eq_none_iff_forall_ne_some]
    intro join' hop
    have hjoin' := Level.joins_of_operator? hop
    rcases h t ht with hcl | hcomma | ⟨lv', join, hjoin, hrank⟩
    · simpa [hcl] using hjoin'.kind_mem
    · simpa [hcomma] using hjoin'.kind_mem
    · rw [hjoin'.level_eq hjoin] at hrank
      exact Nat.lt_irrefl _ hrank

/-- No phrase ends before an opening parenthesis. -/
theorem Ends.kind_ne (h : p.Ends rest) : ∀ t ∈ rest.head?, t.kind ≠ .openParen := by
  intro t ht hop
  rcases h t ht with hcl | hcomma | ⟨lv', join, hjoin, -⟩
  · simp [hop] at hcl
  · simp [hop] at hcomma
  · simpa [hop] using hjoin.kind_mem

mutual

/-- **What is derived is read**, up to where the phrase ends. -/
theorem Derives.reads {p : Phrase} {ts rest : List Token} {a : Object} (h : p.Derives ts a)
    (hrest : p.Ends rest) : Reads p (ts ++ rest) a rest := by
  cases h with
  | operand ha => exact .operand (ha.reads hrest.operand) hrest.stops
  | joined ha ht hb =>
    rw [List.append_assoc, List.cons_append]
    exact .joined (ha.reads (ends_of_joins ht _)) ht (hb.reads hrest)
  | const ht => exact .const ht hrest.kind_ne
  | call ht hop hargs hcl =>
    simp only [List.cons_append, List.append_assoc, List.nil_append]
    exact .call ht hop (hargs.reads (by simp [hcl])) hcl
  | hole ht => exact .hole ht
  | group hop ha hcl =>
    simp only [List.cons_append, List.append_assoc, List.nil_append]
    exact .group hop (ha.reads (.of_kind (by simp [hcl]))) hcl
termination_by (ts.length, p.rank)
decreasing_by
  · subst_vars
    exact Prod.Lex.right _ (rank_operand_lt _)
  all_goals
    subst_vars
    apply Prod.Lex.left
    simp only [List.length_append, List.length_cons, List.length_nil]
    omega

/-- One or more objects are read up to a closing parenthesis or the end. -/
theorem DerivesList.reads {ts rest : List Token} {as : List Object} (h : DerivesList ts as)
    (hrest : ∀ t ∈ rest.head?, t.kind = .closeParen) : ReadsList (ts ++ rest) as rest := by
  cases h with
  | one ha =>
    refine .one (ha.reads (.of_kind fun t ht => .inl (hrest t ht))) fun t ht hcomma => ?_
    rw [hrest t ht] at hcomma
    cases hcomma
  | more ha ht has =>
    rw [List.append_assoc, List.cons_append]
    exact .more (ha.reads (.of_kind (by simp [ht]))) ht (has.reads hrest)
termination_by (ts.length, 7)
decreasing_by
  · subst_vars
    exact Prod.Lex.right _ (by decide)
  all_goals
    subst_vars
    apply Prod.Lex.left
    simp only [List.length_append, List.length_cons]
    omega

end

end Phrase

namespace Directive

variable {ts : List Token} {d : Directive}

/-! ## Directives -/

theorem derivesList_of_readObjects {args : List Object} {rest : Rest ts}
    (h : readObjects ts = .ok (args, rest)) (hrest : rest.1 = []) :
    Phrase.DerivesList ts args := by
  obtain ⟨us, hus, hargs⟩ := consumes_of_read.2.2 ts args rest h
  rw [hrest, List.append_nil] at hus
  rw [hus]
  exact hargs

theorem derives_of_read (h : read ts = .ok (d, [])) : Derives ts d := by
  match ts with
  | [] => cases h
  | [t] =>
    rw [read] at h
    split at h
    · cases h
      exact .alone ‹_›
    · cases h
  | t :: u :: us =>
    rw [read] at h
    split at h
    · obtain ⟨⟨args, rest⟩, hargs, heq⟩ := map_eq_ok_iff.mp h
      obtain ⟨⟨args', rest'⟩, hread, hpair⟩ := map_eq_ok_iff.mp hargs
      obtain ⟨rfl, rfl⟩ := Prod.mk.inj hpair
      obtain ⟨rfl, hrest⟩ := Prod.mk.inj heq
      exact .applied ‹_› (derivesList_of_readObjects hread hrest)
    · cases h

theorem Derives.read_eq (h : Derives ts d) : read ts = .ok (d, []) := by
  cases h with
  | alone ht =>
    rw [read, if_pos ht]
    rfl
  | @applied t us args ht hargs =>
    have hreads : ReadsList (us ++ []) args [] := hargs.reads (by simp)
    rw [List.append_nil] at hreads
    obtain ⟨hlt, hread⟩ := hreads
    cases us with
    | nil => cases hlt
    | cons u us =>
      rw [read, if_pos ht, readArguments, hread]
      · rfl
      · simp

/-- **The reader accepts exactly the grammar**, and no list of tokens is two directives. -/
theorem read_iff_derives (ts : List Token) :
    (∀ d, read ts = .ok (d, []) ↔ Derives ts d) ∧
      ∀ d d', Derives ts d → Derives ts d' → d = d' := by
  refine ⟨fun d => ⟨derives_of_read, Derives.read_eq⟩, fun d d' h h' => ?_⟩
  have heq := h.read_eq.symm.trans h'.read_eq
  cases heq
  rfl

end Directive

end RuleProver
