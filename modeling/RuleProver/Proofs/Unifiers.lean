import RuleProver.Proofs.Matching

/-!
# What unification returns

Unification should return an assignment under which the two expressions become the same. The two
walk together, and wherever a hole stands on one side it is bound to what stands on the other. So
when the expressions have no hole in common, every binding *crosses*: it takes a hole of one
expression to a part of the other. Filling both expressions makes this place the same only if the
part is not changed by filling, that is, if none of its own holes is bound. Hence what is returned
does what it should exactly when it is in solved form (`same_fill_iff_solvedForm`). A hole that
occurs twice can be bound both as a part and by itself, and then it does not
(`unifier?_not_unifying`).

When one expression is an instance of the other, its own holes are never bound, and every binding
goes one way. Unification is then matching, and this can be told from the holes that are bound
(`matching_exact`).

## Main definitions

* `Crosses` — an equation between a hole of one expression and a part of the other

## Main results

* `Expr.crosses_of_unifier?` — every binding crosses
* `Expr.same_fill_iff_solvedForm` — when the assignment makes the expressions the same
* `Expr.matching_exact` — matching succeeds exactly for instances
-/

namespace RuleProver

variable {α : Type}

/-- An equation between a hole among `xs` and an expression with holes among `ys`, or the other way
round. -/
def Crosses (xs ys : List String) (e : Equation α) : Prop :=
  e.1 ∈ xs ∧ e.2.holes ⊆ ys ∨ e.1 ∈ ys ∧ e.2.holes ⊆ xs

theorem Crosses.mono {xs ys xs' ys' : List String} {e : Equation α} (h : Crosses xs ys e)
    (hxs : xs ⊆ xs') (hys : ys ⊆ ys') : Crosses xs' ys' e :=
  h.imp (fun h => ⟨hxs h.1, List.Subset.trans h.2 hys⟩)
    fun h => ⟨hys h.1, List.Subset.trans h.2 hxs⟩

theorem Assignment.exists_mem_of_mem_keys {σ : Assignment α} {x : String} (h : x ∈ σ.keys) :
    ∃ u, (x, u) ∈ σ := by
  obtain ⟨⟨y, u⟩, hu, rfl⟩ := List.mem_map.mp h
  exact ⟨u, hu⟩

namespace Expr

/-! ## Bindings go from one side to the other -/

mutual

theorem crosses_of_equations : (a b : Expr α) → {es : List (Equation α)} →
    equations a b = some es → ∀ e ∈ es, Crosses a.holes b.holes e
  | a, .hole m y, es, h => by
    rw [equations] at h
    obtain rfl := Option.some.inj h
    refine List.forall_mem_singleton.mpr (.inr ⟨?_, List.Subset.refl _⟩)
    rw [holes_hole]
    exact List.mem_singleton_self y
  | .hole m x, .node m' k bs, es, h => by
    rw [equations] at h
    obtain rfl := Option.some.inj h
    refine List.forall_mem_singleton.mpr (.inl ⟨?_, List.Subset.refl _⟩)
    rw [holes_hole]
    exact List.mem_singleton_self x
  | .node m k as, .node m' k' bs, es, h => by
    rw [equations] at h
    split at h
    · rw [holes_node, holes_node]
      exact crosses_of_equationsAll as bs h
    · contradiction

theorem crosses_of_equationsAll : (as bs : List (Expr α)) → {es : List (Equation α)} →
    equationsAll as bs = some es → ∀ e ∈ es, Crosses (as.flatMap holes) (bs.flatMap holes) e
  | a :: as, b :: bs, gs, h => by
    rw [equationsAll] at h
    obtain ⟨es, hes, h⟩ := Option.bind_eq_some_iff.mp h
    obtain ⟨fs, hfs, rfl⟩ := Option.map_eq_some_iff.mp h
    intro e he
    rw [List.flatMap_cons, List.flatMap_cons]
    rcases List.mem_append.mp he with he | he
    · exact (crosses_of_equations a b hes e he).mono (List.subset_append_left _ _)
        (List.subset_append_left _ _)
    · exact (crosses_of_equationsAll as bs hfs e he).mono (List.subset_append_right _ _)
        (List.subset_append_right _ _)
  | [], bs, es, h => by
    obtain rfl : es = [] := by simpa [equationsAll] using h.symm
    exact List.forall_mem_nil _
  | a :: as, [], es, h => by
    obtain rfl : es = [] := by simpa [equationsAll] using h.symm
    exact List.forall_mem_nil _

end

variable {a b : Expr α} {σ : Assignment α}

/-- **Every binding crosses** from one of the two expressions to the other. -/
theorem crosses_of_unifier? (h : a.unifier? b = some σ) :
    ∀ e ∈ σ, Crosses a.holes b.holes e := by
  rw [unifier?_eq] at h
  obtain ⟨es, hes, hsolve⟩ := Option.bind_eq_some_iff.mp h
  intro e he
  exact crosses_of_equations a b hes e ((mem_of_solve hsolve e he).resolve_left List.not_mem_nil)

/-! ## When the assignment makes the expressions the same -/

/-- Filled expressions are the same exactly when the assignment, applied once, solves its own
bindings. -/
theorem same_fill_iff_solves (h : a.unifier? b = some σ) :
    (a.fill σ).same (b.fill σ) = true ↔ Solves (σ.andThen var) σ := by
  rw [same_iff, ← inst_var, ← inst_var, inst_fill, inst_fill]
  exact inst_eq_iff_of_unifier? h _

/-- A binding is solved by filling once only if filling leaves its value alone, so that a hole of
the value that is bound must be bound to itself. -/
theorem erase_eq_var_of_solves (hσ : σ.keys.Nodup) (h : Solves (σ.andThen var) σ) {x y : String}
    {t u : Expr α} (ht : (x, t) ∈ σ) (hy : y ∈ t.holes) (hu : (y, u) ∈ σ) : u.erase = var y := by
  have hvalue : ∀ {z : String} {v : Expr α}, (z, v) ∈ σ → σ.andThen var z = v.erase := by
    intro z v hv
    rw [Assignment.andThen, Assignment.get?_of_mem hσ hv, Option.elim_some, inst_var]
  have hfixed : t.inst var = t.inst (σ.andThen var) := by
    rw [inst_var, ← hvalue ht]
    exact h (x, t) ht
  rw [← hvalue hu]
  exact ((inst_eq_inst_iff t).mp hfixed y hy).symm

/-- **When unification unifies.** Let two expressions with no hole in common unify. Filling both
with the assignment that is returned makes them the same exactly when no value in it mentions a hole
that it binds. -/
theorem same_fill_iff_solvedForm (hdisjoint : ∀ x ∈ a.holeNames, x ∉ b.holeNames)
    (h : a.unifier? b = some σ) : (a.fill σ).same (b.fill σ) = true ↔ σ.SolvedForm := by
  simp only [mem_holeNames] at hdisjoint
  have hnodup := nodup_keys_of_unifier? h
  rw [same_fill_iff_solves h]
  refine ⟨fun hsolves => ?_, fun hform => hform.solves hnodup var⟩
  rintro ⟨x, t⟩ ht y hy hykeys
  obtain ⟨u, hu⟩ := Assignment.exists_mem_of_mem_keys hykeys
  have hself : y ∈ u.holes := by
    rw [← holes_erase, erase_eq_var_of_solves hnodup hsolves ht hy hu, holes_hole]
    exact List.mem_singleton_self y
  -- bound to itself, the hole would occur in both expressions
  rcases crosses_of_unifier? h _ hu with ⟨ha, hb⟩ | ⟨hb, ha⟩
  · exact hdisjoint y ha (hb hself)
  · exact hdisjoint y (ha hself) hb

/-- The expressions `f(g(#z), #w)` and `f(#y, k)` become `f(g(#z), k)`. -/
theorem same_fill_crossing_holes :
    let a : Expr Unit := term "f" [term "g" [var "z"], var "w"]
    let b : Expr Unit := term "f" [var "y", const "k"]
    let σ : Assignment Unit := [("y", term "g" [var "z"]), ("w", const "k")]
    (∀ x ∈ a.holeNames, x ∉ b.holeNames) ∧ a.unifier? b = some σ ∧ σ.SolvedForm ∧
      (a.fill σ).same (b.fill σ) = true := by
  intro a b σ
  have hdisjoint : ∀ x ∈ a.holeNames, x ∉ b.holeNames := by decide
  have hunify : a.unifier? b = some σ := rfl
  have hform : σ.SolvedForm := by
    unfold Assignment.SolvedForm
    decide
  exact ⟨hdisjoint, hunify, hform, (same_fill_iff_solvedForm hdisjoint hunify).mpr hform⟩

/-- The expressions have no hole in common and unify, but they do not become the same. -/
def StaysApart (a b : Expr Unit) : Prop :=
  (∀ x ∈ a.holeNames, x ∉ b.holeNames) ∧
    ∃ σ, a.unifier? b = some σ ∧ (a.fill σ).same (b.fill σ) = false

/-- Two pairs that unify and stay apart, one for each side on which a hole is repeated. To unify
`f(#x, #x)` with `f(#y, k)`, `#y` is bound to `#x` before `#x` is bound to `k`; and to unify
`f(#x, #w)` with `f(g(#y), #y)`, `#x` is bound to `g(#y)` before `#y` is bound to `#w`. -/
theorem unifier?_not_unifying :
    StaysApart (term "f" [var "x", var "x"]) (term "f" [var "y", const "k"]) ∧
      StaysApart (term "f" [var "x", var "w"]) (term "f" [term "g" [var "y"], var "y"]) := by
  refine ⟨⟨by decide, _, rfl, rfl⟩, ⟨by decide, _, rfl, rfl⟩⟩

/-! ## Matching -/

/-- When only holes of the pattern are bound, what is returned is in solved form and leaves the
expression alone. -/
theorem same_fill_of_keys_subset (hdisjoint : ∀ x ∈ a.holeNames, x ∉ b.holeNames)
    (h : a.unifier? b = some σ) (hkeys : ∀ x ∈ σ.keys, x ∈ b.holeNames) :
    (b.fill σ).same a = true := by
  have hfree : ∀ x ∈ a.holes, x ∉ σ.keys := fun x hx hxkeys =>
    hdisjoint x (mem_holeNames.mpr hx) (hkeys x hxkeys)
  have hform : σ.SolvedForm := by
    intro e he y hy
    refine hfree y ?_
    rcases crosses_of_unifier? h e he with ⟨ha, -⟩ | ⟨-, ha⟩
    · exact absurd (List.mem_map_of_mem he) (hfree e.1 ha)
    · exact ha hy
  have hsame := (same_fill_iff_solves h).mpr (hform.solves (nodup_keys_of_unifier? h) var)
  rw [fill_eq_self fun x hx => Assignment.get?_eq_none_iff.mpr (hfree x hx), same_iff] at hsame
  exact (same_iff _ _).mpr hsame.symm

/-- A pattern whose holes do not occur in its instance has them all filled. -/
theorem exists_get?_of_same_fill {τ : Assignment α} (hdisjoint : ∀ x ∈ a.holeNames, x ∉ b.holeNames)
    (h : (b.fill τ).same a = true) {x : String} (hx : x ∈ b.holes) :
    ∃ v, τ.get? x = some v ∧ τ.andThen var x = v.erase := by
  cases hget : τ.get? x with
  | some v => exact ⟨v, rfl, by rw [Assignment.andThen, hget, Option.elim_some, inst_var]⟩
  | none =>
    have hmem : x ∈ a.holes := by
      rw [← holes_erase, ← inst_of_same_fill h, holes_inst]
      refine List.mem_flatMap.mpr ⟨x, hx, ?_⟩
      rw [Assignment.andThen, hget, Option.elim_none, holes_hole]
      exact List.mem_singleton_self x
    exact absurd (mem_holeNames.mpr hx) (hdisjoint x (mem_holeNames.mpr hmem))

/-- An instance unifies with its pattern by bindings for the holes of the pattern, which are bound
to what fills them. -/
theorem exists_matching_of_same_fill {τ : Assignment α}
    (hdisjoint : ∀ x ∈ a.holeNames, x ∉ b.holeNames) (h : (b.fill τ).same a = true) :
    ∃ σ, a.unifier? b = some σ ∧ (∀ x, x ∈ σ.keys ↔ x ∈ b.holeNames) ∧
      ∀ x ∈ b.holeNames, ∃ u v, σ.get? x = some u ∧ τ.get? x = some v ∧ u.same v = true := by
  obtain ⟨σ, hσ, hfollows, hkeys⟩ := exists_follows_of_inst (inst_of_same_fill h)
  have hnames : ∀ x, x ∈ σ.keys ↔ x ∈ b.holeNames := fun x => (hkeys x).trans mem_holeNames.symm
  refine ⟨σ, hσ, hnames, fun x hx => ?_⟩
  obtain ⟨u, hu⟩ := Assignment.exists_mem_of_mem_keys ((hnames x).mpr hx)
  obtain ⟨v, hv, hvalue⟩ := exists_get?_of_same_fill hdisjoint h (mem_holeNames.mp hx)
  refine ⟨u, v, Assignment.get?_of_mem (nodup_keys_of_unifier? hσ) hu, hv, ?_⟩
  rw [same_iff, hfollows _ hu, hvalue]

/-- **Matching is exact.** Let an expression and a pattern have no hole in common. The expression is
the pattern with its holes filled exactly when the two unify by bindings for holes of the pattern
alone. The bound holes are then all those of the pattern, they are bound to what fills them, and
filling the pattern with these bindings gives the expression. -/
theorem matching_exact (hdisjoint : ∀ x ∈ a.holeNames, x ∉ b.holeNames) :
    ((∃ τ : Assignment α, (b.fill τ).same a = true) ↔
        ∃ σ, a.unifier? b = some σ ∧ ∀ x ∈ σ.keys, x ∈ b.holeNames) ∧
      ∀ τ : Assignment α, (b.fill τ).same a = true →
        ∃ σ, a.unifier? b = some σ ∧ (∀ x, x ∈ σ.keys ↔ x ∈ b.holeNames) ∧
          (∀ x ∈ b.holeNames, ∃ u v, σ.get? x = some u ∧ τ.get? x = some v ∧ u.same v = true) ∧
          (b.fill σ).same a = true := by
  refine ⟨⟨?_, ?_⟩, fun τ hτ => ?_⟩
  · rintro ⟨τ, hτ⟩
    obtain ⟨σ, hσ, hnames, -⟩ := exists_matching_of_same_fill hdisjoint hτ
    exact ⟨σ, hσ, fun x => (hnames x).mp⟩
  · rintro ⟨σ, hσ, hkeys⟩
    exact ⟨σ, same_fill_of_keys_subset hdisjoint hσ hkeys⟩
  · obtain ⟨σ, hσ, hnames, hvalues⟩ := exists_matching_of_same_fill hdisjoint hτ
    exact ⟨σ, hσ, hnames, hvalues, same_fill_of_keys_subset hdisjoint hσ fun x => (hnames x).mp⟩

/-- The pattern `f(#y, #y)` with `g(#z)` in its hole. -/
theorem matching_exact_repeated_hole :
    let a : Expr Unit := term "f" [term "g" [var "z"], term "g" [var "z"]]
    let b : Expr Unit := term "f" [var "y", var "y"]
    let τ : Assignment Unit := [("y", term "g" [var "z"])]
    (∀ x ∈ a.holeNames, x ∉ b.holeNames) ∧ (b.fill τ).same a = true ∧
      ∃ σ, a.unifier? b = some σ ∧ (∀ x, x ∈ σ.keys ↔ x ∈ b.holeNames) ∧
        (∀ x ∈ b.holeNames, ∃ u v, σ.get? x = some u ∧ τ.get? x = some v ∧ u.same v = true) ∧
        (b.fill σ).same a = true := by
  intro a b τ
  have hdisjoint : ∀ x ∈ a.holeNames, x ∉ b.holeNames := by decide
  have hfill : (b.fill τ).same a = true := rfl
  exact ⟨hdisjoint, hfill, (matching_exact hdisjoint).2 τ hfill⟩

end Expr

end RuleProver
