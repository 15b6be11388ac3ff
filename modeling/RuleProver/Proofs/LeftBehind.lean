import RuleProver.Proofs.Buildable

/-!
# What a check leaves behind

A check may add to the lists of its context, and what it adds to a list that was there before stays
there. A list that comes up on the way is private: it is seen below the rule that it was made for
and is gone afterwards. So the symbols of the context are the same after a check as before, each
with its list, and each list has grown at its end only.

What has been added are reduced left sides. A check goes from a rule to its right side, and from a
composition to its left side and then, if this is buildable, to its right side. It adds the left
side of a rule as it passes the rule, unless it is content with the rule as a whole. So the
additions to a list come from the rules under its symbol that can be reached in this way, in the
order in which they are reached, and from each of them at most once.

## Main definitions

* `Expr.Reaches` — a part lies below right sides of rules and sides of compositions only
* `Expr.lefts` — the left sides of the rules under a symbol that are reached, in order

## Main results

* `Expr.mem_lefts_iff` — which left sides these are
* `Expr.Checked.symbols_eq`, `Expr.Checked.exists_additions` — symbols and lists after a check
* `Expr.check_leaves_behind` — what a check leaves behind
-/

namespace RuleProver

variable {α : Type}

/-! ## The symbols of a context -/

namespace Context

variable {Γ Δ : Context α} {s k : Option String} {t : Expr α}

theorem has_of_mem_symbols (h : k ∈ Γ.symbols) : Γ.has k = true := by
  induction Γ with
  | nil => exact absurd h List.not_mem_nil
  | cons e Γ ih =>
    rw [has, get?_cons]
    by_cases hk : k = e.1
    · rw [if_pos hk, Option.isSome_some]
    · rw [if_neg hk]
      exact ih ((List.mem_cons.mp h).resolve_left hk)

theorem symbols_add (Γ : Context α) (s : Option String) (t : Expr α) :
    (Γ.add s t).symbols = if Γ.has s then Γ.symbols else Γ.symbols ++ [s] := by
  rw [add, has]
  split
  · rw [symbols, symbols, List.map_map]
    refine List.map_congr_left fun e _ => ?_
    by_cases he : e.1 = s <;> simp [he]
  · rw [symbols, symbols, List.map_append]
    rfl

theorem symbols_within (Δ Γ : Context α) : (Δ.within Γ).symbols = Δ.symbols.filter Γ.has := by
  rw [symbols, symbols, within, List.filter_map]
  rfl

/-- A list that was made for a symbol is gone when only the lists from before are left. -/
theorem symbols_within_of_add (h : Δ.symbols = (Γ.add s t).symbols) :
    (Δ.within Γ).symbols = Γ.symbols := by
  have hself : Γ.symbols.filter Γ.has = Γ.symbols :=
    List.filter_eq_self.mpr fun _ => has_of_mem_symbols
  rw [symbols_within, h, symbols_add]
  by_cases hs : Γ.has s = true
  · rw [if_pos hs, hself]
  · rw [if_neg hs, List.filter_append, hself, List.filter_cons_of_neg hs, List.filter_nil,
      List.append_nil]

end Context

namespace Expr

/-! ## The rules that are reached -/

/-- A part is reached from the root through right sides of rules and sides of compositions only. -/
inductive Reaches : Expr α → Expr α → Prop
  | root (t : Expr α) : Reaches t t
  | rule {m : α} {s : String} {l r t : Expr α} (right : Reaches r t) :
      Reaches (.node m (.rule s) [l, r]) t
  | left {m : α} {l r t : Expr α} (left : Reaches l t) : Reaches (.node m .comp [l, r]) t
  | right {m : α} {l r t : Expr α} (right : Reaches r t) : Reaches (.node m .comp [l, r]) t

/-- The left sides of the rules under a symbol that are reached, in the order in which a check
passes them. -/
def lefts (k : Option String) : Expr α → List (Expr α)
  | .node _ (.rule s) [l, r] => (if some s = k then [l] else []) ++ lefts k r
  | .node _ .comp [l, r] => lefts k l ++ lefts k r
  | _ => []

theorem mem_lefts_of_reaches {k : Option String} {t x l r : Expr α} {m : α} {s : String}
    (h : t.Reaches x) (hx : x = .node m (.rule s) [l, r]) (hk : k = some s) : l ∈ t.lefts k := by
  induction h with
  | root t =>
    rw [hx, lefts, if_pos hk.symm]
    exact List.mem_append_left _ (List.mem_singleton_self l)
  | rule _ ih =>
    rw [lefts]
    exact List.mem_append_right _ (ih hx)
  | left _ ih =>
    rw [lefts]
    exact List.mem_append_left _ (ih hx)
  | right _ ih =>
    rw [lefts]
    exact List.mem_append_right _ (ih hx)

theorem exists_reaches_of_mem_lefts {k : Option String} {t l : Expr α} (h : l ∈ t.lefts k) :
    ∃ m s r, k = some s ∧ t.Reaches (.node m (.rule s) [l, r]) := by
  fun_induction lefts k t with
  | case1 m s l' r ih =>
    rcases List.mem_append.mp h with hroot | hright
    · by_cases hk : some s = k
      · rw [if_pos hk, List.mem_singleton] at hroot
        subst hroot
        exact ⟨m, s, r, hk.symm, .root _⟩
      · rw [if_neg hk] at hroot
        exact absurd hroot List.not_mem_nil
    · obtain ⟨m', s', r', hk, hreach⟩ := ih hright
      exact ⟨m', s', r', hk, .rule hreach⟩
  | case2 m l' r ihl ihr =>
    rcases List.mem_append.mp h with hleft | hright
    · obtain ⟨m', s', r', hk, hreach⟩ := ihl hleft
      exact ⟨m', s', r', hk, .left hreach⟩
    · obtain ⟨m', s', r', hk, hreach⟩ := ihr hright
      exact ⟨m', s', r', hk, .right hreach⟩
  | case3 => exact absurd h List.not_mem_nil

/-- The left sides that a check can add to a list are those of the rules under its symbol that are
reached. -/
theorem mem_lefts_iff {k : Option String} {t l : Expr α} :
    l ∈ t.lefts k ↔ ∃ m s r, k = some s ∧ t.Reaches (.node m (.rule s) [l, r]) :=
  ⟨exists_reaches_of_mem_lefts, fun ⟨_, _, _, hk, h⟩ => mem_lefts_of_reaches h rfl hk⟩

variable [Inhabited α] {Γ Δ : Context α} {s k : Option String} {t : Expr α} {v : Verdict α}

/-! ## Lists that grow -/

theorem Checked.symbols_eq [HoleOrder] (h : Checked Γ s t v Δ) : Δ.symbols = Γ.symbols := by
  induction h with
  | listed => rfl
  | rule _ _ _ ih => exact Context.symbols_within_of_add ih
  | left _ _ _ ih => exact ih
  | comp _ _ _ _ ihl ihr => exact ihr.trans ihl
  | unbuildable => rfl

/-- **A list grows at its end**, by reduced left sides in the order in which a check passes them. -/
theorem Checked.exists_additions [HoleOrder] (h : Checked Γ s t v Δ) {ts : List (Expr α)}
    (hk : Γ.get? k = some ts) : ∃ new, Δ.get? k = some (ts ++ new) ∧
      (new.map some).Sublist ((t.lefts k).map reduce?) := by
  induction h generalizing ts with
  | listed => exact ⟨[], by rw [List.append_nil, hk], List.nil_sublist _⟩
  | @rule Γ Δ s m s' l l' r v _ reduced _ ih =>
    have hkeep : (Δ.within Γ).get? k = Δ.get? k := by
      rw [Context.get?_within, hk, Option.isSome_some, if_pos rfl]
    rw [hkeep, lefts]
    by_cases hs : some s' = k
    · -- the list was there before, so the left side stays in it
      have hadd : (Γ.add (some s') l').get? k = some (ts ++ [l']) := by
        rw [Context.get?_add, if_pos hs.symm, hs, hk, Option.getD_some]
      obtain ⟨new, hnew, hsub⟩ := ih hadd
      refine ⟨l' :: new, by rw [hnew, List.append_assoc, List.singleton_append], ?_⟩
      rw [if_pos hs, List.singleton_append, List.map_cons, List.map_cons, reduced]
      exact hsub.cons_cons _
    · have hadd : (Γ.add (some s') l').get? k = some ts := by
        rw [Context.get?_add, if_neg (Ne.symm hs), hk]
      obtain ⟨new, hnew, hsub⟩ := ih hadd
      refine ⟨new, hnew, ?_⟩
      rwa [if_neg hs, List.nil_append]
  | left _ _ _ ih =>
    obtain ⟨new, hnew, hsub⟩ := ih hk
    refine ⟨new, hnew, ?_⟩
    rw [lefts, List.map_append]
    exact hsub.trans (List.sublist_append_left _ _)
  | comp _ _ _ _ ihl ihr =>
    obtain ⟨first, hfirst, hsubl⟩ := ihl hk
    obtain ⟨second, hsecond, hsubr⟩ := ihr hfirst
    refine ⟨first ++ second, by rw [hsecond, List.append_assoc], ?_⟩
    rw [lefts, List.map_append, List.map_append]
    exact hsubl.append hsubr
  | unbuildable => exact ⟨[], by rw [List.append_nil, hk], List.nil_sublist _⟩

/-- **What a check leaves behind.** After a check that gives a verdict, the context has the same
symbols as before, and the list of each symbol is the old one followed by new expressions. Every new
one is the reduced left side of a rule under the symbol that is reached through right sides of rules
and sides of compositions only; they are in the order in which the rules are passed, and no rule
brings in more than one. -/
theorem check_leaves_behind [HoleOrder] (h : t.check s Γ = some (v, Δ)) :
    Δ.symbols = Γ.symbols ∧
      ∀ k ts, Γ.get? k = some ts → ∃ new, Δ.get? k = some (ts ++ new) ∧
        (∀ u ∈ new, ∃ m s' l r, k = some s' ∧ t.Reaches (.node m (.rule s') [l, r]) ∧
          l.reduce? = some u) ∧
        (new.map some).Sublist ((t.lefts k).map reduce?) := by
  have hchecked : Checked Γ s t v Δ := checked_of_check h
  refine ⟨hchecked.symbols_eq, fun k ts hk => ?_⟩
  obtain ⟨new, hnew, hsub⟩ := hchecked.exists_additions hk
  refine ⟨new, hnew, fun u hu => ?_, hsub⟩
  have hmem : some u ∈ (t.lefts k).map reduce? := hsub.subset (List.mem_map_of_mem hu)
  obtain ⟨l, hl, hreduced⟩ := List.mem_map.mp hmem
  obtain ⟨m, s', r, hk', hreach⟩ := mem_lefts_iff.mp hl
  exact ⟨m, s', l, r, hk', hreach, hreduced⟩

/-- The rule `A => (B ~ (C => A))`, with rules under two symbols. -/
abbrev layered : Expr Unit :=
  rule (const "A") "=>" (rule (const "B") "~" (rule (const "C") "=>" (const "A")))

/-- Where only `=>` has a list, a check of `layered` leaves `A` and `C` behind in it. The list with
`B` that was made for `~` is gone. -/
theorem check_leaves_behind_layered :
    layered.check (some "=>") bare = some (.listed (const "A"),
      [(some "=>", [const "True", const "A", const "C"])]) ∧
    ∀ u ∈ [const "A", const "C"], ∃ m s' l r, some "=>" = some s' ∧
      layered.Reaches (.node m (.rule s') [l, r]) ∧ l.reduce? = some u := by
  have hcheck : layered.check (some "=>") bare = some (.listed (const "A"),
      [(some "=>", [const "True", const "A", const "C"])]) := rfl
  obtain ⟨-, hlists⟩ := check_leaves_behind hcheck
  obtain ⟨new, hnew, hreached, -⟩ := hlists (some "=>") [const "True"] rfl
  obtain rfl : [const "A", const "C"] = new := List.cons.inj (Option.some.inj hnew) |>.2
  exact ⟨hcheck, hreached⟩

end Expr

end RuleProver
