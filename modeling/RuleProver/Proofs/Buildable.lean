import RuleProver.Buildability
import RuleProver.Proofs.Instance

/-!
# Buildable expressions

What it means for an expression to be buildable, as an inductive definition, and what a check has
to do with it.

A check lets the lists of its context grow: what a rule adds under a symbol that has a list
already stays there when the check of the rule is over. So the right side of a composition is
checked in a larger context than the left side was, and a check can accept what is not buildable:
in a context that lists `True` alone, `(A => A) | A` passes (`check_accepts_leak`). On the other
hand nothing buildable is ever refused, since larger contexts never hurt (`Checked.holds`).

A verdict can be trusted when no rule that is met on the left of a composition adds under a symbol
listed there: then nothing is left behind that the right side could see (`check_sound_iff`). In
general, as nothing buildable is refused, all that can be said is that a wrong verdict is one that
the check with a list of its own for every rule does not give.

## Main definitions

* `Expr.Buildable` — the inductive definition, for a symbol in a context
* `Expr.builds` — its decision procedure, in which no rule adds to the lists of another
* `Expr.Outcome` — how a check can end, by the checks that it makes on the way
* `Expr.Checked` — what a check does, one rule for each way that it can take

## Main results

* `Expr.Buildable.mono`, `Expr.builds_iff`
* `Expr.Checked.holds` — a check accepts what is buildable
* `Expr.check_sound_iff` — checks that accept only what is buildable
* `Expr.check_complete` — a check in a larger context refuses nothing buildable
-/

namespace RuleProver

variable {α : Type}

/-! ## Contexts -/

namespace Context

theorem get?_cons (e : Option String × List (Expr α)) (Γ : Context α) (k : Option String) :
    get? (e :: Γ) k = if k = e.1 then some e.2 else Γ.get? k := by
  rw [get?, List.lookup_cons]
  by_cases hk : k = e.1
  · rw [if_pos hk, beq_iff_eq.mpr hk]
  · rw [if_neg hk, beq_eq_false_iff_ne.mpr hk, get?]

theorem get?_append (Γ Δ : Context α) (k : Option String) :
    get? (Γ ++ Δ) k = (Γ.get? k).or (Δ.get? k) :=
  List.lookup_append

/-- Lists that are changed in place. -/
theorem get?_map (Γ : Context α) (f : Option String → List (Expr α) → List (Expr α))
    (k : Option String) : get? (Γ.map fun e => (e.1, f e.1 e.2)) k = (Γ.get? k).map (f k) := by
  induction Γ with
  | nil => rfl
  | cons e Γ ih =>
    rw [List.map_cons, get?_cons, get?_cons, ih]
    split
    · rename_i hk
      rw [hk, Option.map_some]
    · rfl

theorem get?_add (Γ : Context α) (s k : Option String) (t : Expr α) :
    (Γ.add s t).get? k = if k = s then some ((Γ.get? s).getD [] ++ [t]) else Γ.get? k := by
  rw [add]
  split
  · rename_i hs
    obtain ⟨ts, hts⟩ := Option.isSome_iff_exists.mp hs
    have hmap : (Γ.map fun e => if e.1 = s then (e.1, e.2 ++ [t]) else e) =
        Γ.map fun e => (e.1, if e.1 = s then e.2 ++ [t] else e.2) :=
      List.map_congr_left fun e _ => by split <;> rfl
    rw [hmap, get?_map Γ fun k ts => if k = s then ts ++ [t] else ts]
    by_cases hk : k = s
    · simp [hk, hts]
    · simp [hk]
  · rename_i hs
    have hnone : Γ.get? s = none := by simpa using hs
    rw [get?_append, get?_cons]
    by_cases hk : k = s
    · simp [hk, hnone]
    · simp [hk, get?]

theorem get?_within (Δ Γ : Context α) (k : Option String) :
    (Δ.within Γ).get? k = if (Γ.get? k).isSome then Δ.get? k else none := by
  induction Δ with
  | nil => split <;> rfl
  | cons e Δ ih =>
    rw [within, List.filter_cons, get?_cons]
    by_cases hk : k = e.1
    · subst hk
      split
      · rw [get?_cons, if_pos rfl, if_pos rfl]
      · rename_i he
        rw [if_neg he] at ih
        exact ih
    · rw [if_neg hk, ← ih]
      split
      · rw [get?_cons, if_neg hk]
        rfl
      · rfl

theorem lists_iff {Γ : Context α} {k : Option String} {t : Expr α} :
    Γ.lists k t = true ↔ ∃ ts, Γ.get? k = some ts ∧ t.memOf ts = true := by
  rw [lists]
  cases Γ.get? k <;> simp

theorem lists_add {Γ : Context α} {s k : Option String} {t u : Expr α} :
    (Γ.add s t).lists k u = true ↔ Γ.lists k u = true ∨ k = s ∧ u.same t = true := by
  rw [lists_iff, lists_iff, get?_add]
  by_cases hk : k = s
  · subst hk
    cases hs : Γ.get? k <;> simp [Expr.memOf]
  · simp [hk]

/-- Whether a symbol has a list. -/
def has (Γ : Context α) (s : Option String) : Bool := (Γ.get? s).isSome

theorem has_of_lists {Γ : Context α} {s : Option String} {t : Expr α} (h : Γ.lists s t = true) :
    Γ.has s = true := by
  obtain ⟨ts, hts, -⟩ := lists_iff.mp h
  rw [has, hts, Option.isSome_some]

theorem has_add (Γ : Context α) (s k : Option String) (t : Expr α) :
    (Γ.add s t).has k = (decide (k = s) || Γ.has k) := by
  rw [has, get?_add]
  by_cases hk : k = s <;> simp [hk, has]

theorem lists_within {Γ Δ : Context α} {k : Option String} {t : Expr α} :
    (Δ.within Γ).lists k t = true ↔ Γ.has k = true ∧ Δ.lists k t = true := by
  rw [lists_iff, lists_iff, get?_within, has]
  by_cases hk : (Γ.get? k).isSome <;> simp [hk]

theorem has_within (Γ Δ : Context α) (k : Option String) :
    (Δ.within Γ).has k = (Γ.has k && Δ.has k) := by
  rw [has, get?_within, has]
  by_cases hk : (Γ.get? k).isSome <;> simp [hk, has]

/-- The symbols that have a list. -/
def symbols (Γ : Context α) : List (Option String) := Γ.map (·.1)

theorem mem_symbols_of_has {Γ : Context α} {s : Option String} (h : Γ.has s = true) :
    s ∈ Γ.symbols := by
  obtain ⟨ts, hts⟩ := Option.isSome_iff_exists.mp h
  obtain ⟨before, after, rfl, -⟩ := List.lookup_eq_some_iff.mp hts
  simp [symbols]

/-- Everything that `Γ` lists is listed in `Δ` for the same symbol. -/
def Included (Γ Δ : Context α) : Prop := ∀ s t, Γ.lists s t = true → Δ.lists s t = true

namespace Included

theorem refl (Γ : Context α) : Γ.Included Γ := fun _ _ h => h

theorem trans {Γ Δ Θ : Context α} (h : Γ.Included Δ) (h' : Δ.Included Θ) : Γ.Included Θ :=
  fun s t ht => h' s t (h s t ht)

theorem add {Γ Δ : Context α} (h : Γ.Included Δ) (s : Option String) (t : Expr α) :
    (Γ.add s t).Included (Δ.add s t) := by
  intro k u hu
  rcases lists_add.mp hu with hu | hu
  · exact lists_add.mpr (.inl (h k u hu))
  · exact lists_add.mpr (.inr hu)

theorem add_right (Γ : Context α) (s : Option String) (t : Expr α) : Γ.Included (Γ.add s t) :=
  fun _ _ hu => lists_add.mpr (.inl hu)

end Included

/-- Lists expressions one after the other, each for its symbol. -/
def addAll (Γ : Context α) (es : List (Option String × Expr α)) : Context α :=
  es.foldl (fun Γ e => Γ.add e.1 e.2) Γ

@[simp] theorem addAll_nil (Γ : Context α) : Γ.addAll [] = Γ := rfl

@[simp] theorem addAll_cons (Γ : Context α) (e : Option String × Expr α)
    (es : List (Option String × Expr α)) : Γ.addAll (e :: es) = (Γ.add e.1 e.2).addAll es := rfl

theorem lists_addAll {Γ : Context α} {es : List (Option String × Expr α)} {k : Option String}
    {t : Expr α} : (Γ.addAll es).lists k t = true ↔
      Γ.lists k t = true ∨ ∃ e ∈ es, k = e.1 ∧ t.same e.2 = true := by
  induction es generalizing Γ with
  | nil => simp
  | cons e es ih =>
    rw [addAll_cons, ih, lists_add, or_assoc]
    simp only [List.mem_cons, exists_eq_or_imp]

/-- The expressions that are recorded for a symbol, in order. -/
def recorded (es : List (Option String × Expr α)) (k : Option String) : List (Expr α) :=
  (es.filter fun e => e.1 = k).map (·.2)

theorem recorded_cons (e : Option String × Expr α) (es : List (Option String × Expr α))
    (k : Option String) :
    recorded (e :: es) k = if e.1 = k then e.2 :: recorded es k else recorded es k := by
  by_cases hk : e.1 = k <;> simp [recorded, hk]

theorem get?_addAll (Γ : Context α) (es : List (Option String × Expr α)) (k : Option String) :
    (Γ.addAll es).get? k = if recorded es k = [] then Γ.get? k
      else some ((Γ.get? k).getD [] ++ recorded es k) := by
  induction es generalizing Γ with
  | nil => exact (if_pos rfl).symm
  | cons e es ih =>
    rw [addAll_cons, ih, get?_add, recorded_cons]
    by_cases hk : e.1 = k
    · subst hk
      by_cases hes : recorded es e.1 = [] <;> simp [hes]
    · rw [if_neg hk, if_neg (Ne.symm hk)]

end Context

namespace Expr

variable [Inhabited α] {Γ Δ Θ : Context α} {s : Option String} {t : Expr α} {v : Verdict α}

section

variable [HoleOrder]

/-! ## The definition -/

/-- An expression is buildable for a symbol in a context when its reduced form is listed for the
symbol, when it is a composition of two buildable expressions, or when it is a rule whose right
side is buildable for its own symbol once its reduced left side is listed too. -/
inductive Buildable : Context α → Option String → Expr α → Prop
  | listed {Γ : Context α} {s : Option String} {t u : Expr α} (reduced : t.reduce? = some u)
      (known : Γ.lists s u = true) : Buildable Γ s t
  | comp {Γ : Context α} {s : Option String} {m : α} {l r : Expr α} (left : Buildable Γ s l)
      (right : Buildable Γ s r) : Buildable Γ s (.node m .comp [l, r])
  | rule {Γ : Context α} {s : Option String} {m : α} {s' : String} {l l' r : Expr α}
      (reduced : l.reduce? = some l') (right : Buildable (Γ.add (some s') l') (some s') r) :
      Buildable Γ s (.node m (.rule s') [l, r])

/-- **Knowing more never hurts.** -/
theorem Buildable.mono (h : Buildable Γ s t) (hΓ : Γ.Included Δ) : Buildable Δ s t := by
  induction h generalizing Δ with
  | listed reduced known => exact .listed reduced (hΓ _ _ known)
  | comp _ _ ihl ihr => exact .comp (ihl hΓ) (ihr hΓ)
  | rule reduced _ ih => exact .rule reduced (ih (hΓ.add _ _))

/-- Whether the reduced form of an expression is listed for a symbol. -/
def isListed (t : Expr α) (s : Option String) (Γ : Context α) : Bool := t.reduce?.any (Γ.lists s)

theorem isListed_iff :
    t.isListed s Γ = true ↔ ∃ u, t.reduce? = some u ∧ Γ.lists s u = true := by
  rw [isListed]
  cases t.reduce? <;> simp

/-- Decides buildability. This goes through an expression as a check does, but what a rule adds is
forgotten once the rule has been dealt with. -/
def builds : Expr α → Option String → Context α → Bool
  | t@(.node _ (.rule s) [l, r]), sym, Γ =>
    t.isListed sym Γ || l.reduce?.any fun l' => builds r (some s) (Γ.add (some s) l')
  | t@(.node _ .comp [l, r]), sym, Γ => t.isListed sym Γ || (builds l sym Γ && builds r sym Γ)
  | t, sym, Γ => t.isListed sym Γ

theorem builds_rule {m : α} {s' : String} {l r : Expr α} :
    (node m (.rule s') [l, r]).builds s Γ = true ↔ (node m (.rule s') [l, r]).isListed s Γ = true ∨
      ∃ l', l.reduce? = some l' ∧ r.builds (some s') (Γ.add (some s') l') = true := by
  rw [builds, Bool.or_eq_true]
  cases l.reduce? <;> simp

theorem builds_comp {m : α} {l r : Expr α} :
    (node m .comp [l, r]).builds s Γ = true ↔ (node m .comp [l, r]).isListed s Γ = true ∨
      l.builds s Γ = true ∧ r.builds s Γ = true := by
  rw [builds, Bool.or_eq_true, Bool.and_eq_true]

theorem builds_of_isListed (h : t.isListed s Γ = true) : t.builds s Γ = true := by
  fun_cases builds t s Γ with
  | case1 => rw [h, Bool.true_or]
  | case2 => rw [h, Bool.true_or]
  | case3 => exact h

theorem Buildable.of_isListed (h : t.isListed s Γ = true) : Buildable Γ s t := by
  obtain ⟨u, hu, hlists⟩ := isListed_iff.mp h
  exact .listed hu hlists

/-- `builds` decides the inductive definition. -/
theorem builds_iff : t.builds s Γ = true ↔ Buildable Γ s t := by
  constructor
  · intro h
    fun_induction builds t s Γ with
    | case1 s Γ m s' l r ih =>
      rcases builds_rule.mp h with h | ⟨l', hl', hr⟩
      · exact .of_isListed h
      · exact .rule hl' (ih l' hr)
    | case2 s Γ m l r ihl ihr =>
      rcases builds_comp.mp h with h | ⟨hl, hr⟩
      · exact .of_isListed h
      · exact .comp (ihl hl) (ihr hr)
    | case3 => exact .of_isListed h
  · intro h
    induction h with
    | listed reduced known => exact builds_of_isListed (isListed_iff.mpr ⟨_, reduced, known⟩)
    | comp _ _ ihl ihr => exact builds_comp.mpr (.inr ⟨ihl, ihr⟩)
    | rule reduced _ ih => exact builds_rule.mpr (.inr ⟨_, reduced, ih⟩)

instance (Γ : Context α) (s : Option String) (t : Expr α) : Decidable (Buildable Γ s t) :=
  decidable_of_iff _ builds_iff

/-! ## What a check does -/

theorem isListed_eq_of_reduce? {u : Expr α} (h : t.reduce? = some u) :
    t.isListed s Γ = Γ.lists s u := by
  rw [isListed, h, Option.any_some]

/-- How a check comes to its verdict from the checks that it runs, and what it leaves behind. -/
inductive Outcome : Context α → Option String → Expr α → Verdict α → Context α → Prop
  | listed {Γ : Context α} {s : Option String} {t : Expr α} (known : t.isListed s Γ = true) :
      Outcome Γ s t (.listed t) Γ
  | rule {Γ Δ : Context α} {s : Option String} {m : α} {s' : String} {l l' r : Expr α}
      {v : Verdict α} (unknown : (node m (.rule s') [l, r]).isListed s Γ = false)
      (reduced : l.reduce? = some l')
      (right : r.check (some s') (Γ.add (some s') l') = some (v, Δ)) :
      Outcome Γ s (.node m (.rule s') [l, r]) v (Δ.within Γ)
  | left {Γ Δ : Context α} {s : Option String} {m : α} {l r : Expr α} {v : Verdict α}
      (unknown : (node m .comp [l, r]).isListed s Γ = false) (left : l.check s Γ = some (v, Δ))
      (refused : v.holds = false) : Outcome Γ s (.node m .comp [l, r]) v Δ
  | comp {Γ Δ Θ : Context α} {s : Option String} {m : α} {l r : Expr α} {v w : Verdict α}
      (unknown : (node m .comp [l, r]).isListed s Γ = false) (left : l.check s Γ = some (v, Δ))
      (accepted : v.holds = true) (right : r.check s Δ = some (w, Θ)) :
      Outcome Γ s (.node m .comp [l, r]) (if w.holds then .composed else w) Θ
  | unbuildable {Γ : Context α} {s : Option String} {t : Expr α}
      (unknown : t.builds s Γ = false) : Outcome Γ s t (.unbuildable t) Γ

theorem outcome_of_check (h : t.check s Γ = some (v, Δ)) : Outcome Γ s t v Δ := by
  unfold check at h
  split at h
  · rename_i m s' l r
    obtain ⟨u, hu, h⟩ := Option.bind_eq_some_iff.mp h
    rw [← isListed_eq_of_reduce? hu] at h
    split at h
    · rename_i hlisted
      cases h
      exact .listed hlisted
    · rename_i hlisted
      obtain ⟨l', hl', h⟩ := Option.bind_eq_some_iff.mp h
      obtain ⟨⟨v', Δ'⟩, hr, h⟩ := Option.bind_eq_some_iff.mp h
      cases h
      exact .rule (Bool.eq_false_iff.mpr hlisted) hl' hr
  · rename_i m l r
    obtain ⟨u, hu, h⟩ := Option.bind_eq_some_iff.mp h
    rw [← isListed_eq_of_reduce? hu] at h
    split at h
    · rename_i hlisted
      cases h
      exact .listed hlisted
    · rename_i hlisted
      obtain ⟨⟨v', Δ'⟩, hl, h⟩ := Option.bind_eq_some_iff.mp h
      dsimp only at h
      split at h
      · rename_i hv
        cases h
        exact .left (Bool.eq_false_iff.mpr hlisted) hl (by simpa using hv)
      · rename_i hv
        obtain ⟨⟨w, Θ⟩, hr, h⟩ := Option.bind_eq_some_iff.mp h
        cases h
        exact .comp (Bool.eq_false_iff.mpr hlisted) hl (by simpa using hv) hr
  · rename_i hrule hcomp
    obtain ⟨u, hu, h⟩ := Option.bind_eq_some_iff.mp h
    rw [← isListed_eq_of_reduce? hu] at h
    cases h
    split
    · rename_i hlisted
      exact .listed hlisted
    · rename_i hlisted
      refine .unbuildable ?_
      rw [builds]
      · exact Bool.eq_false_iff.mpr hlisted
      · exact hrule
      · exact hcomp

/-- The runs of a check: from a context, a symbol and an expression to a verdict and the context
that is left behind. -/
inductive Checked : Context α → Option String → Expr α → Verdict α → Context α → Prop
  | listed {Γ : Context α} {s : Option String} {t : Expr α} (known : t.isListed s Γ = true) :
      Checked Γ s t (.listed t) Γ
  | rule {Γ Δ : Context α} {s : Option String} {m : α} {s' : String} {l l' r : Expr α}
      {v : Verdict α} (unknown : (node m (.rule s') [l, r]).isListed s Γ = false)
      (reduced : l.reduce? = some l') (right : Checked (Γ.add (some s') l') (some s') r v Δ) :
      Checked Γ s (.node m (.rule s') [l, r]) v (Δ.within Γ)
  | left {Γ Δ : Context α} {s : Option String} {m : α} {l r : Expr α} {v : Verdict α}
      (unknown : (node m .comp [l, r]).isListed s Γ = false) (left : Checked Γ s l v Δ)
      (refused : v.holds = false) : Checked Γ s (.node m .comp [l, r]) v Δ
  | comp {Γ Δ Θ : Context α} {s : Option String} {m : α} {l r : Expr α} {v w : Verdict α}
      (unknown : (node m .comp [l, r]).isListed s Γ = false) (left : Checked Γ s l v Δ)
      (accepted : v.holds = true) (right : Checked Δ s r w Θ) :
      Checked Γ s (.node m .comp [l, r]) (if w.holds then .composed else w) Θ
  | unbuildable {Γ : Context α} {s : Option String} {t : Expr α}
      (unknown : t.builds s Γ = false) : Checked Γ s t (.unbuildable t) Γ

theorem checked_of_check (h : t.check s Γ = some (v, Δ)) : Checked Γ s t v Δ := by
  induction t generalizing s Γ v Δ with
  | hole m x =>
    cases outcome_of_check h with
    | listed known => exact .listed known
    | unbuildable unknown => exact .unbuildable unknown
  | node m k cs ih =>
    cases outcome_of_check h with
    | listed known => exact .listed known
    | rule unknown reduced right => exact .rule unknown reduced (ih _ (by simp) right)
    | left unknown left refused => exact .left unknown (ih _ (by simp) left) refused
    | comp unknown left accepted right =>
      exact .comp unknown (ih _ (by simp) left) accepted (ih _ (by simp) right)
    | unbuildable unknown => exact .unbuildable unknown

/-- A check only adds to the lists of its context. -/
theorem Checked.included (h : Checked Γ s t v Δ) : Γ.Included Δ := by
  induction h with
  | listed => exact .refl _
  | rule _ _ _ ih =>
    intro k u hu
    exact Context.lists_within.mpr
      ⟨Context.has_of_lists hu, ih k u (Context.Included.add_right _ _ _ k u hu)⟩
  | left _ _ _ ih => exact ih
  | comp _ _ _ _ ihl ihr => exact ihl.trans ihr
  | unbuildable => exact .refl _

/-- A check leaves no list behind for a symbol that had none. -/
theorem Checked.has_of_has (h : Checked Γ s t v Δ) {k : Option String}
    (hk : Δ.has k = true) :
    Γ.has k = true := by
  induction h with
  | listed => exact hk
  | rule =>
    rw [Context.has_within, Bool.and_eq_true] at hk
    exact hk.1
  | left _ _ _ ih => exact ih hk
  | comp _ _ _ _ ihl ihr => exact ihl (ihr hk)
  | unbuildable => exact hk

/-- **A check accepts what is buildable.** -/
theorem Checked.holds (h : Checked Γ s t v Δ) (hb : Buildable Γ s t) :
    v.holds = true := by
  induction h with
  | listed => rfl
  | rule unknown reduced _ ih =>
    rcases builds_rule.mp (builds_iff.mpr hb) with hlisted | ⟨l', hl', hr⟩
    · rw [unknown] at hlisted
      contradiction
    · rw [reduced] at hl'
      cases hl'
      exact ih (builds_iff.mp hr)
  | left unknown _ refused ih =>
    rcases builds_comp.mp (builds_iff.mpr hb) with hlisted | ⟨hl, -⟩
    · rw [unknown] at hlisted
      contradiction
    · exact ih (builds_iff.mp hl)
  | comp unknown left _ _ _ ihr =>
    rcases builds_comp.mp (builds_iff.mpr hb) with hlisted | ⟨-, hr⟩
    · rw [unknown] at hlisted
      contradiction
    · rw [if_pos (ihr ((builds_iff.mp hr).mono left.included))]
      rfl
  | unbuildable unknown =>
    rw [builds_iff.mpr hb] at unknown
    contradiction

/-! ## When sharing does no harm -/

/-- Whether a check of the expression can add to the list of one of the symbols `K`. What it adds
below a rule, under the symbol of this rule, is gone afterwards unless the symbol is among `K`. -/
def addsTo (K : List (Option String)) : Expr α → Bool
  | .node _ (.rule s) [_, r] => decide (some s ∈ K) || addsTo K r
  | .node _ .comp [l, r] => addsTo K l || addsTo K r
  | _ => false

/-- Whether no composition adds on its left to a list that its right side can see, when the
symbols `K` have lists at first. -/
def separate : Expr α → List (Option String) → Bool
  | .node _ (.rule s) [_, r], K => separate r (some s :: K)
  | .node _ .comp [l, r], K => !addsTo K l && separate l K && separate r K
  | _, _ => true

theorem Checked.get?_eq (h : Checked Γ s t v Δ) {K : List (Option String)}
    (hK : t.addsTo K = false) {k : Option String} (hk : k ∈ K) : Δ.get? k = Γ.get? k := by
  induction h with
  | listed => rfl
  | @rule Γ Δ s m s' l l' r v _ _ _ ih =>
    simp only [addsTo, Bool.or_eq_false_iff, decide_eq_false_iff_not] at hK
    have hks : k ≠ some s' := fun e => hK.1 (e ▸ hk)
    rw [Context.get?_within, ih hK.2, Context.get?_add, if_neg hks]
    split
    · rfl
    · rename_i hnone
      exact (Option.not_isSome_iff_eq_none.mp hnone).symm
  | left _ _ _ ih =>
    simp only [addsTo, Bool.or_eq_false_iff] at hK
    exact ih hK.1
  | comp _ _ _ _ ihl ihr =>
    simp only [addsTo, Bool.or_eq_false_iff] at hK
    rw [ihr hK.2, ihl hK.1]
  | unbuildable => rfl

/-- A check of an expression that adds to no list leaves nothing new behind. -/
theorem Checked.included_of_addsTo (h : Checked Γ s t v Δ) {K : List (Option String)}
    (hΓ : ∀ k, Γ.has k = true → k ∈ K) (hK : t.addsTo K = false) : Δ.Included Γ := by
  intro k u hu
  have hk : k ∈ K := hΓ k (h.has_of_has (Context.has_of_lists hu))
  rwa [Context.lists_iff, ← h.get?_eq hK hk, ← Context.lists_iff]

theorem Checked.buildable_of_separate (h : Checked Γ s t v Δ) {K : List (Option String)}
    (hΓ : ∀ k, Γ.has k = true → k ∈ K) (hK : t.separate K = true) (hv : v.holds = true) :
    Buildable Γ s t := by
  induction h generalizing K with
  | listed known => exact .of_isListed known
  | @rule Γ Δ s m s' l l' r v _ reduced _ ih =>
    refine .rule reduced (ih (fun k hk => ?_) hK hv)
    rw [Context.has_add, Bool.or_eq_true, decide_eq_true_eq] at hk
    exact List.mem_cons.mpr (hk.imp_right (hΓ k))
  | left _ _ refused =>
    rw [hv] at refused
    contradiction
  | @comp Γ Δ Θ s m l r v w _ left accepted _ ihl ihr =>
    simp only [separate, Bool.and_eq_true, Bool.not_eq_true'] at hK
    obtain ⟨⟨hadds, hl⟩, hr⟩ := hK
    have hw : w.holds = true := by
      by_contra hw
      rw [if_neg hw] at hv
      exact hw hv
    have hright : Buildable Δ s r := ihr (fun k hk => hΓ k (left.has_of_has hk)) hr hw
    exact .comp (ihl hΓ hl accepted) (hright.mono (left.included_of_addsTo hΓ hadds))
  | unbuildable => contradiction

/-- **When a check can be trusted.** A check accepts only what is buildable for every expression in
which no composition adds on its left to a list that its right side can see. For other expressions,
since nothing buildable is refused, this comes to the verdict being that of `builds`. -/
theorem check_sound_iff (h : t.check s Γ = some (v, Δ)) :
    ((v.holds = true → Buildable Γ s t) ↔ v.holds = t.builds s Γ) ∧
      (t.separate Γ.symbols = true → v.holds = true → Buildable Γ s t) := by
  have hchecked := checked_of_check h
  refine ⟨⟨fun hsound => ?_, fun heq hv => ?_⟩, fun hsep hv => ?_⟩
  · rw [Bool.eq_iff_iff, builds_iff]
    exact ⟨hsound, hchecked.holds⟩
  · rw [heq] at hv
    exact builds_iff.mp hv
  · exact hchecked.buildable_of_separate (fun _ => Context.mem_symbols_of_has) hsep hv

end

/-- The context of a new proof: `True` holds for `=>`. -/
abbrev bare : Context Unit := [(some "=>", [const "True"])]

/-- The lemma `A => ((A => B) => B)` in the form of its proof. -/
abbrev modusPonens : Expr Unit :=
  rule (const "A") "=>" (rule (rule (const "A") "=>" (const "B")) "=>"
    (comp (const "A") (rule (const "A") "=>" (const "B"))))

/-- From `True` alone a check accepts `modusPonens`, and rightly so: its composition adds nothing on
the left. -/
theorem check_sound_of_modusPonens :
    modusPonens.check (some "=>") bare = some (.composed, [(some "=>",
      [const "True", const "A", rule (const "A") "=>" (const "B")])]) ∧
    modusPonens.separate bare.symbols = true ∧ Buildable bare (some "=>") modusPonens :=
  ⟨rfl, by decide +kernel, (check_sound_iff (v := .composed) rfl).2 (by decide +kernel) rfl⟩

/-- From `True` alone a check accepts `(A => A) | A`, since the left side leaves `A` behind. It is
not buildable there. -/
theorem check_accepts_leak :
    (comp (rule (const "A") "=>" (const "A")) (const "A")).check (some "=>") bare =
      some (.composed, [(some "=>", [const "True", const "A"])]) ∧
    ¬ Buildable bare (some "=>") (comp (rule (const "A") "=>" (const "A")) (const "A")) :=
  ⟨rfl, by decide +kernel⟩

/-! ## Larger contexts -/

/-- **A check in a larger context refuses nothing buildable.** Whatever a context lists beyond what
a derivation uses, and whatever the check adds to it on the way, the verdict of a check that comes
to an end is that the expression is buildable. -/
theorem check_complete [HoleOrder] (hb : Buildable Γ s t) (hΓ : Γ.Included Δ)
    (h : t.check s Δ = some (v, Θ)) : v.holds = true := by
  have hchecked : Checked Δ s t v Θ := checked_of_check h
  have hlarger : Buildable Δ s t := hb.mono hΓ
  exact hchecked.holds hlarger

/-- A check of `modusPonens` goes another way where `(A => B) => B` is listed to begin with, and
still accepts. -/
theorem check_complete_of_modusPonens : ∃ v Θ,
    Buildable bare (some "=>") modusPonens ∧
    modusPonens.check (some "=>") (bare.add (some "=>")
      (rule (rule (const "A") "=>" (const "B")) "=>" (const "B"))) = some (v, Θ) ∧
    v.holds = true := by
  have hb : Buildable bare (some "=>") modusPonens := by decide +kernel
  obtain ⟨⟨v, Θ⟩, h⟩ : ∃ answer, modusPonens.check (some "=>") (bare.add (some "=>")
      (rule (rule (const "A") "=>" (const "B")) "=>" (const "B"))) = some answer := ⟨_, rfl⟩
  exact ⟨v, Θ, hb, h, check_complete hb (Context.Included.add_right _ _ _) h⟩

end Expr

end RuleProver
