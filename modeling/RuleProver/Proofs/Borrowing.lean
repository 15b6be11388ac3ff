import RuleProver.Proofs.Buildable

/-!
# What a check borrows

While a check runs, the right side of a composition sees what the check of the left side has left
in the lists. It *borrows* that. The larger the context is to begin with, the fewer rules the check
goes into, and the less there is to borrow. So a check can lose what it borrowed when its context
grows: from `True` alone it accepts `(A => A) | A`, since the left side leaves `A` behind, but where
`A => A` is listed as well nothing is left behind, and it refuses (`check_not_mono`).

Nothing else can go wrong. An expression that is accepted in a context is buildable in every larger
one that lists what was borrowed (`buildable_of_borrowed`), and there a check accepts it too.
Nothing is borrowed where no composition adds on its left to a list that its right side can see, and
then every larger context will do (`check_mono_iff`). In any case a verdict that a larger context
takes away was wrong, since a check refuses nothing buildable.

## Main definitions

* `Context.news` — what one context lists and another does not
* `Expr.borrowed` — what the check of an expression borrows

## Main results

* `Expr.buildable_of_borrowed` — an accepted expression is buildable from what was borrowed
* `Expr.borrowed_of_separate` — when nothing is borrowed
* `Expr.check_mono_iff` — larger contexts in which a check does not fail
-/

namespace RuleProver

variable {α : Type}

namespace Context

theorem lists_of_same {Γ : Context α} {k : Option String} {t u : Expr α} (hu : Γ.lists k u = true)
    (h : t.same u = true) : Γ.lists k t = true := by
  obtain ⟨ts, hts, hmem⟩ := lists_iff.mp hu
  obtain ⟨v, hv, huv⟩ := List.any_eq_true.mp hmem
  refine lists_iff.mpr ⟨ts, hts, List.any_eq_true.mpr ⟨v, hv, ?_⟩⟩
  rw [Expr.same_iff] at h huv ⊢
  exact h.trans huv

/-- What `Δ` lists and `Γ` does not, each expression with its symbol. -/
def news (Δ Γ : Context α) : List (Option String × Expr α) :=
  (Δ.flatMap fun e => e.2.map fun t => (e.1, t)).filter fun e =>
    Δ.lists e.1 e.2 && !Γ.lists e.1 e.2

/-- Whatever `Δ` lists is listed in `Γ` or among the news. -/
theorem lists_or_mem_news {Γ Δ : Context α} {k : Option String} {t : Expr α}
    (h : Δ.lists k t = true) :
    Γ.lists k t = true ∨ ∃ u, (k, u) ∈ Δ.news Γ ∧ t.same u = true := by
  obtain ⟨ts, hts, hmem⟩ := lists_iff.mp h
  obtain ⟨u, hu, htu⟩ := List.any_eq_true.mp hmem
  have hΔ : Δ.lists k u = true :=
    lists_iff.mpr ⟨ts, hts, List.any_eq_true.mpr ⟨u, hu, Expr.same_refl u⟩⟩
  by_cases hΓ : Γ.lists k u = true
  · exact .inl (lists_of_same hΓ htu)
  · have hentry : (k, ts) ∈ Δ := by
      obtain ⟨before, after, rfl, -⟩ := List.lookup_eq_some_iff.mp hts
      simp
    refine .inr ⟨u, List.mem_filter.mpr ⟨List.mem_flatMap.mpr ⟨(k, ts), hentry, ?_⟩, ?_⟩, htu⟩
    · exact List.mem_map_of_mem hu
    · simp [hΔ, hΓ]

/-- A context that has what `Γ` lists and the news of `Δ` has what `Δ` lists. -/
theorem included_of_news {Γ Δ Θ : Context α} (hΓ : Γ.Included Θ)
    (hnews : ∀ e ∈ Δ.news Γ, Θ.lists e.1 e.2 = true) : Δ.Included Θ := by
  intro k t ht
  rcases lists_or_mem_news (Γ := Γ) ht with ht | ⟨u, hu, htu⟩
  · exact hΓ k t ht
  · exact lists_of_same (hnews _ hu) htu

theorem news_eq_nil {Γ Δ : Context α} (h : Δ.Included Γ) : Δ.news Γ = [] := by
  refine List.filter_eq_nil_iff.mpr fun e _ he => ?_
  rw [Bool.and_eq_true, Bool.not_eq_true'] at he
  rw [h _ _ he.1] at he
  exact Bool.noConfusion he.2

end Context

namespace Expr

variable [Inhabited α] {Γ Δ Θ : Context α} {s : Option String} {t : Expr α} {v w : Verdict α}

/-! ## Borrowing -/

/-- What the check of an expression borrows: for every composition that it goes into, what the check
of the left side leaves behind for the right side. -/
def borrowed [HoleOrder] : Expr α → Option String → Context α → List (Option String × Expr α)
  | t@(.node _ (.rule s) [l, r]), sym, Γ =>
    if t.isListed sym Γ then []
    else (l.reduce?.map fun l' => borrowed r (some s) (Γ.add (some s) l')).getD []
  | t@(.node _ .comp [l, r]), sym, Γ =>
    if t.isListed sym Γ then []
    else borrowed l sym Γ ++
      ((l.check sym Γ).map fun p => p.2.news Γ ++ borrowed r sym p.2).getD []
  | _, _, _ => []

theorem borrowed_rule [HoleOrder] {m : α} {s' : String} {l l' r : Expr α}
    (hlisted : (node m (.rule s') [l, r]).isListed s Γ = false) (hl : l.reduce? = some l') :
    (node m (.rule s') [l, r]).borrowed s Γ = r.borrowed (some s') (Γ.add (some s') l') := by
  rw [borrowed, hlisted, hl]
  rfl

theorem borrowed_comp [HoleOrder] {m : α} {l r : Expr α}
    (hlisted : (node m .comp [l, r]).isListed s Γ = false) (hl : l.check s Γ = some (v, Δ)) :
    (node m .comp [l, r]).borrowed s Γ = l.borrowed s Γ ++ (Δ.news Γ ++ r.borrowed s Δ) := by
  rw [borrowed, hlisted, hl]
  rfl

/-- **What an accepted expression is buildable from**: any context that has what the check started
from and what it borrowed on the way. -/
theorem buildable_of_borrowed [HoleOrder] (h : t.check s Γ = some (v, Δ)) (hv : v.holds = true)
    (hΓ : Γ.Included Θ) (hborrowed : ∀ e ∈ t.borrowed s Γ, Θ.lists e.1 e.2 = true) :
    Buildable Θ s t := by
  induction t generalizing s Γ v Δ Θ with
  | hole m x =>
    cases outcome_of_check h with
    | listed known => exact (Buildable.of_isListed known).mono hΓ
    | unbuildable => contradiction
  | node m k cs ih =>
    cases outcome_of_check h with
    | listed known => exact (Buildable.of_isListed known).mono hΓ
    | unbuildable => contradiction
    | rule unknown reduced right =>
      rw [borrowed_rule unknown reduced] at hborrowed
      refine .rule reduced (ih _ (by simp) right hv (hΓ.add _ _) fun e he => ?_)
      exact Context.Included.add_right _ _ _ _ _ (hborrowed e he)
    | left unknown left refused =>
      rw [hv] at refused
      contradiction
    | comp unknown left accepted right =>
      rename_i Δ' l r v' w
      rw [borrowed_comp unknown left] at hborrowed
      simp only [List.forall_mem_append] at hborrowed
      obtain ⟨hl, hnews, hr⟩ := hborrowed
      have hw : w.holds = true := by
        by_contra hw
        rw [if_neg hw] at hv
        exact hw hv
      -- the right side was checked in a context that the news of the left side make up for
      have hΔ : Δ'.Included Θ := Context.included_of_news hΓ hnews
      exact .comp (ih l (by simp) left accepted hΓ hl) (ih r (by simp) right hw hΔ hr)

/-- Nothing is borrowed where no composition adds on its left to a list that its right side can
see. -/
theorem borrowed_of_separate [HoleOrder] {K : List (Option String)} (hK : t.separate K = true)
    (hΓ : ∀ k, Γ.has k = true → k ∈ K) : t.borrowed s Γ = [] := by
  fun_induction borrowed t s Γ generalizing K with
  | case1 => rfl
  | case2 m s' l r s Γ _ ih =>
    cases hl : l.reduce? with
    | none => rfl
    | some l' =>
      rw [Option.map_some, Option.getD_some]
      refine ih l' hK fun k hk => ?_
      rw [Context.has_add, Bool.or_eq_true, decide_eq_true_eq] at hk
      exact List.mem_cons.mpr (hk.imp_right (hΓ k))
  | case3 => rfl
  | case4 m l r s Γ _ ihl ihr =>
    simp only [separate, Bool.and_eq_true, Bool.not_eq_true'] at hK
    obtain ⟨⟨hadds, hl⟩, hr⟩ := hK
    rw [ihl hl hΓ, List.nil_append]
    cases hcheck : l.check s Γ with
    | none => rfl
    | some p =>
      obtain ⟨v, Δ⟩ := p
      have hchecked : Checked Γ s l v Δ := checked_of_check hcheck
      have hΔ : Δ.Included Γ := hchecked.included_of_addsTo hΓ hadds
      rw [Option.map_some, Option.getD_some, Context.news_eq_nil hΔ, List.nil_append]
      exact ihr (v, Δ) hr fun k hk => hΓ k (hchecked.has_of_has hk)
  | case5 => rfl

/-! ## Larger contexts -/

/-- **When a larger context does no harm.** Let a context have all that another one lists, and let
both give a verdict. An expression that is accepted in the smaller one is accepted in the larger one
as well if that lists what was borrowed in the smaller one, and if there is nothing to borrow. In
general, since nothing buildable is refused, it can only be lost where the smaller one was wrong to
accept it. -/
theorem check_mono_iff [HoleOrder] {Γ' Δ' : Context α} (hΓ : Γ.Included Δ)
    (h : t.check s Γ = some (v, Γ')) (h' : t.check s Δ = some (w, Δ')) :
    ((v.holds = true → w.holds = true) ↔ (w.holds = false → v.holds = t.builds s Γ)) ∧
      ((∀ e ∈ t.borrowed s Γ, Δ.lists e.1 e.2 = true) → v.holds = true → w.holds = true) ∧
      (t.separate Γ.symbols = true → v.holds = true → w.holds = true) := by
  have hcomplete : Buildable Δ s t → w.holds = true := (checked_of_check h').holds
  have hborrowed : (∀ e ∈ t.borrowed s Γ, Δ.lists e.1 e.2 = true) → v.holds = true →
      w.holds = true :=
    fun hlists hv => hcomplete (buildable_of_borrowed h hv hΓ hlists)
  refine ⟨⟨fun hmono hw => ?_, fun hright hv => ?_⟩, hborrowed, fun hsep => hborrowed ?_⟩
  · have hv : v.holds = false := by
      by_contra hv
      rw [hmono (by simpa using hv)] at hw
      contradiction
    have hb : t.builds s Γ = false := by
      by_contra hb
      have hbuildable : Buildable Γ s t := builds_iff.mp (by simpa using hb)
      rw [hcomplete (hbuildable.mono hΓ)] at hw
      contradiction
    rw [hv, hb]
  · by_contra hw
    have hb : t.builds s Γ = true := (hright (by simpa using hw)).symm.trans hv
    exact hw (hcomplete ((builds_iff.mp hb).mono hΓ))
  · rw [borrowed_of_separate hsep fun _ => Context.mem_symbols_of_has]
    simp

/-- The composition `(A => A) | A`, whose right side borrows `A` from its left side. -/
abbrev borrower : Expr Unit := comp (rule (const "A") "=>" (const "A")) (const "A")

/-- What `borrower` borrows from `True` alone is `A`. So it is still accepted where both `A => A`
and `A` are listed, though nothing is left to be borrowed there. -/
theorem check_mono_of_borrower :
    borrower.check (some "=>") bare =
        some (.composed, [(some "=>", [const "True", const "A"])]) ∧
      borrower.borrowed (some "=>") bare = [(some "=>", const "A")] ∧
      ∃ w Δ', borrower.check (some "=>") ((bare.add (some "=>")
        (rule (const "A") "=>" (const "A"))).add (some "=>") (const "A")) = some (w, Δ') ∧
        w.holds = true := by
  have hcheck : borrower.check (some "=>") bare =
      some (.composed, [(some "=>", [const "True", const "A"])]) := rfl
  have hborrowed : borrower.borrowed (some "=>") bare = [(some "=>", const "A")] := by
    decide +kernel
  have hlarger : bare.Included ((bare.add (some "=>")
      (rule (const "A") "=>" (const "A"))).add (some "=>") (const "A")) :=
    (Context.Included.add_right _ _ _).trans (Context.Included.add_right _ _ _)
  refine ⟨hcheck, hborrowed, _, _, rfl, (check_mono_iff hlarger hcheck rfl).2.1 ?_ rfl⟩
  rw [hborrowed]
  decide

/-- From `True` alone a check accepts `borrower`. Where `A => A` is listed as well, it refuses. -/
theorem check_not_mono :
    bare.Included (bare.add (some "=>") (rule (const "A") "=>" (const "A"))) ∧
      borrower.check (some "=>") bare =
        some (.composed, [(some "=>", [const "True", const "A"])]) ∧
      borrower.check (some "=>") (bare.add (some "=>") (rule (const "A") "=>" (const "A"))) =
        some (.unbuildable (const "A"),
          [(some "=>", [const "True", rule (const "A") "=>" (const "A")])]) :=
  ⟨Context.Included.add_right _ _ _, rfl, rfl⟩

end Expr

end RuleProver
