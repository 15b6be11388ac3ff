import RuleProver.Proofs.PatternMatching

/-!
# The bindings that unification leaves

Unification starts from bindings that were made before and makes more of them on its way through two
expressions. When it fails, at whatever depth, it has made some of them already, and they are
there for the caller to see. So the two outcomes are looked at together here: what is said of the
bindings holds of all that are left, also by a walk that did not come to its end.

A hole *faces* what stands in its place in the other expression. Binding a hole changes nothing for
the others, and a hole that has a value keeps it. By induction along the walk the bindings *grow*,
and each new one takes a hole to what it faces (`grows_unify`). Hence no binding is ever lost or
changed, and the new ones bind holes of the two expressions to parts of them (`unify_only_adds`).

The bindings that are left also tell the outcome. Unification succeeds exactly if the expressions
are *aligned*, which means that they have the same head wherever both have a node, and every hole is
bound to all that it faces (`unify_fst_iff`).

## Main definitions

* `Assignment.Grows` — bindings are kept, and the new ones are of a given kind
* `Assignment.Binds` — a hole is bound to an expression, up to marks
* `Expr.Faces` — a hole stands where the other expression has a given part
* `Expr.Aligned` — two expressions have the same nodes where both have one

## Main results

* `Expr.grows_unify` — every new binding takes a hole to what it faces
* `Expr.unify_fst_iff` — when unification succeeds, in terms of what it leaves
* `Expr.unify_only_adds` — unification only adds bindings, whether it succeeds or fails
-/

namespace RuleProver

variable {α : Type}

/-! ## Growing bindings -/

namespace Assignment

variable {σ τ ρ : Assignment α} {P Q : String → Expr α → Prop} {x : String} {t u : Expr α}

/-- `τ` keeps the bindings of `σ`, and every hole that it binds besides has a value of the kind
`P`. -/
structure Grows (σ τ : Assignment α) (P : String → Expr α → Prop) : Prop where
  /-- A hole that has a value keeps it. -/
  kept : ∀ x u, σ.get? x = some u → τ.get? x = some u
  /-- A hole that had no value gets one of the kind `P`. -/
  added : ∀ x u, σ.get? x = none → τ.get? x = some u → P x u

/-- The hole `#x` is bound to `u`, up to marks. -/
def Binds (σ : Assignment α) (x : String) (u : Expr α) : Prop :=
  ∃ v, σ.get? x = some v ∧ v.same u = true

theorem Grows.refl (σ : Assignment α) (P : String → Expr α → Prop) : σ.Grows σ P where
  kept _ _ h := h
  added x u hnone hsome := by
    rw [hnone] at hsome
    cases hsome

theorem Grows.mono (h : σ.Grows τ P) (hPQ : ∀ x u, P x u → Q x u) : σ.Grows τ Q where
  kept := h.kept
  added x u hnone hsome := hPQ x u (h.added x u hnone hsome)

theorem Grows.trans (h : σ.Grows τ P) (h' : τ.Grows ρ P) : σ.Grows ρ P where
  kept x u hx := h'.kept x u (h.kept x u hx)
  added x u hnone hsome := by
    cases hx : τ.get? x with
    | none => exact h'.added x u hx hsome
    | some v =>
      obtain rfl : v = u := Option.some.inj ((h'.kept x v hx).symm.trans hsome)
      exact h.added x v hnone hx

theorem Grows.binds (h : σ.Grows τ P) (hx : σ.Binds x u) : τ.Binds x u := by
  obtain ⟨v, hv, hsame⟩ := hx
  exact ⟨v, h.kept x v hv, hsame⟩

theorem get?_append (σ τ : Assignment α) (x : String) :
    get? (σ ++ τ) x = (σ.get? x).or (τ.get? x) :=
  List.lookup_append

/-- Binding a hole gives a value to this hole only, and only if it had none. -/
theorem grows_bind (σ : Assignment α) (y : String) (t : Expr α) :
    σ.Grows (σ.bind y t).2 fun x u => x = y ∧ u = t := by
  rw [bind]
  cases hy : σ.get? y with
  | some v => exact Grows.refl σ _
  | none =>
    constructor
    · intro x u hx
      rw [get?_append, hx, Option.some_or]
    · intro x u hnone hsome
      rw [get?_append, hnone, Option.none_or] at hsome
      simpa using mem_of_get? hsome

/-- Binding a hole succeeds exactly if the hole is then bound to the expression. -/
theorem bind_fst_iff (σ : Assignment α) (y : String) (t : Expr α) :
    (σ.bind y t).1 = true ↔ (σ.bind y t).2.Binds y t := by
  rw [bind]
  cases hy : σ.get? y with
  | some v =>
    refine ⟨fun hsame => ⟨v, hy, hsame⟩, ?_⟩
    rintro ⟨w, hw, hsame⟩
    obtain rfl : v = w := Option.some.inj (hy.symm.trans hw)
    exact hsame
  | none =>
    refine ⟨fun _ => ⟨t, ?_, Expr.same_refl t⟩, fun _ => rfl⟩
    rw [get?_append, hy, Option.none_or]
    exact List.lookup_cons_self

end Assignment

namespace Expr

variable {a b : Expr α} {m m' : α} {h k : Head} {as bs : List (Expr α)} {x y : String} {u : Expr α}

/-! ## Holes and what they face -/

/-- The hole `#x` stands in one expression where the other has `u`. Of two holes in one place it is
the hole of `b` that faces the other. -/
def Faces (a b : Expr α) (x : String) (u : Expr α) : Prop :=
  a.Meets b x u ∨ b.Meets a x u ∧ ∃ m h cs, u = .node m h cs

/-- Where both expressions have a node, they have the same head and as many children. -/
def Aligned (a b : Expr α) : Prop :=
  ∀ path m h as m' k bs, a.at? path = some (.node m h as) → b.at? path = some (.node m' k bs) →
    h = k ∧ as.length = bs.length

theorem Faces.mem_holeNames (hu : a.Faces b x u) : x ∈ a.holeNames ∨ x ∈ b.holeNames := by
  rcases hu with ⟨path, m, hhole, -⟩ | ⟨⟨path, m, hhole, -⟩, -⟩
  · exact .inr (Expr.mem_holeNames.mpr (mem_holes_of_at? hhole))
  · exact .inl (Expr.mem_holeNames.mpr (mem_holes_of_at? hhole))

theorem Faces.exists_at? (hu : a.Faces b x u) :
    ∃ path, a.at? path = some u ∨ b.at? path = some u := by
  rcases hu with ⟨path, m, -, hpath⟩ | ⟨⟨path, m, -, hpath⟩, -⟩
  · exact ⟨path, .inl hpath⟩
  · exact ⟨path, .inr hpath⟩

theorem faces_hole : a.Faces (.hole m y) x u ↔ x = y ∧ u = a := by
  rw [Faces, meets_hole]
  refine or_iff_left ?_
  rintro ⟨⟨path, m', -, hpath⟩, m₁, h, cs, rfl⟩
  obtain ⟨-, hnode⟩ := at?_hole_eq_some.mp hpath
  cases hnode

theorem hole_faces_node : (hole m y).Faces (.node m' k bs) x u ↔ x = y ∧ u = .node m' k bs := by
  rw [Faces, meets_hole, or_iff_right not_hole_meets_node]
  exact ⟨fun hu => hu.1, fun hu => ⟨hu, m', k, bs, hu.2⟩⟩

/-- A hole of two nodes faces what it faces in one pair of their children. -/
theorem faces_node : (node m h as).Faces (.node m' k bs) x u ↔
    ∃ p ∈ as.zip bs, p.1.Faces p.2 x u := by
  have hswap : ∀ p : Expr α × Expr α, p ∈ bs.zip as ↔ p.swap ∈ as.zip bs := by
    intro p
    rw [mem_zip_iff, mem_zip_iff]
    exact exists_congr fun i => and_comm
  simp only [Faces, meets_node]
  constructor
  · rintro (⟨p, hp, hu⟩ | ⟨⟨p, hp, hu⟩, hnode⟩)
    · exact ⟨p, hp, .inl hu⟩
    · exact ⟨p.swap, (hswap p).mp hp, .inr ⟨hu, hnode⟩⟩
  · rintro ⟨p, hp, hu | ⟨hu, hnode⟩⟩
    · exact .inl ⟨p, hp, hu⟩
    · exact .inr ⟨⟨p.swap, (hswap p.swap).mpr hp, hu⟩, hnode⟩

theorem aligned_hole (a : Expr α) (m : α) (x : String) : a.Aligned (.hole m x) := by
  intro path m₁ h as m₂ k bs _ hpath
  cases (at?_hole_eq_some.mp hpath).2

theorem hole_aligned (m : α) (x : String) (b : Expr α) : (hole m x).Aligned b := by
  intro path m₁ h as m₂ k bs hpath _
  cases (at?_hole_eq_some.mp hpath).2

/-- Two nodes with the same head and as many children are aligned if the children are. -/
theorem aligned_node : (node m h as).Aligned (.node m' k bs) ↔
    (h = k ∧ as.length = bs.length) ∧ ∀ p ∈ as.zip bs, p.1.Aligned p.2 := by
  constructor
  · intro haligned
    refine ⟨haligned [] m h as m' k bs rfl rfl, fun p hp path m₁ h₁ cs m₂ h₂ ds hcs hds => ?_⟩
    obtain ⟨i, ha, hb⟩ := mem_zip_iff.mp hp
    refine haligned (i :: path) m₁ h₁ cs m₂ h₂ ds ?_ ?_
    · rw [at?_node_cons, ha]
      exact hcs
    · rw [at?_node_cons, hb]
      exact hds
  · rintro ⟨hroot, hchildren⟩ path m₁ h₁ cs m₂ h₂ ds hcs hds
    cases path with
    | nil =>
      cases hcs
      cases hds
      exact hroot
    | cons i path =>
      rw [at?_node_cons] at hcs hds
      obtain ⟨a, ha, hcs⟩ := Option.bind_eq_some_iff.mp hcs
      obtain ⟨b, hb, hds⟩ := Option.bind_eq_some_iff.mp hds
      exact hchildren (a, b) (mem_zip_iff.mpr ⟨i, ha, hb⟩) path m₁ h₁ cs m₂ h₂ ds hcs hds

/-! ## What a walk leaves -/

mutual

/-- **Bindings grow along the walk**, and each new one takes a hole to what it faces. -/
theorem grows_unify : (a b : Expr α) → (σ : Assignment α) → σ.Grows (unify a b σ).2 (a.Faces b)
  | a, .hole m y, σ => by
    rw [unify]
    exact (σ.grows_bind y a).mono fun _ _ => faces_hole.mpr
  | .hole m y, .node m' k bs, σ => by
    rw [unify]
    exact (σ.grows_bind y (.node m' k bs)).mono fun _ _ => hole_faces_node.mpr
  | .node m h as, .node m' k bs, σ => by
    rw [unify]
    split
    · exact (grows_unifyAll as bs σ).mono fun _ _ => faces_node.mpr
    · exact Assignment.Grows.refl σ _

/-- The list form of `grows_unify`. -/
theorem grows_unifyAll : (as bs : List (Expr α)) → (σ : Assignment α) →
    σ.Grows (unifyAll as bs σ).2 fun x u => ∃ p ∈ as.zip bs, p.1.Faces p.2 x u
  | a :: as, b :: bs, σ => by
    have hfirst : σ.Grows (unify a b σ).2 fun x u =>
        ∃ p ∈ (a :: as).zip (b :: bs), p.1.Faces p.2 x u :=
      (grows_unify a b σ).mono fun _ _ hu => ⟨(a, b), List.mem_cons_self, hu⟩
    rw [unifyAll]
    cases hτ : unify a b σ with
    | mk ok τ =>
      rw [hτ] at hfirst
      cases ok with
      | false => exact hfirst
      | true =>
        -- the other places start from what the first has left
        refine hfirst.trans ((grows_unifyAll as bs τ).mono ?_)
        rintro x u ⟨p, hp, hu⟩
        exact ⟨p, List.mem_cons_of_mem _ hp, hu⟩
  | [], bs, σ => by
    rw [unifyAll]
    · exact Assignment.Grows.refl σ _
    · simp
  | a :: as, [], σ => by
    rw [unifyAll]
    · exact Assignment.Grows.refl σ _
    · simp

end

mutual

/-- **What is left tells the outcome.** Unification succeeds exactly if the expressions are aligned
and it leaves every hole bound to all that the hole faces. -/
theorem unify_fst_iff : (a b : Expr α) → (σ : Assignment α) →
    ((unify a b σ).1 = true ↔
      a.Aligned b ∧ ∀ x u, a.Faces b x u → (unify a b σ).2.Binds x u)
  | a, .hole m y, σ => by
    rw [unify, σ.bind_fst_iff]
    refine ⟨fun hbinds => ⟨aligned_hole a m y, fun x u hu => ?_⟩, fun hall => ?_⟩
    · obtain ⟨rfl, rfl⟩ := faces_hole.mp hu
      exact hbinds
    · exact hall.2 y a (faces_hole.mpr ⟨rfl, rfl⟩)
  | .hole m y, .node m' k bs, σ => by
    rw [unify, σ.bind_fst_iff]
    refine ⟨fun hbinds => ⟨hole_aligned m y _, fun x u hu => ?_⟩, fun hall => ?_⟩
    · obtain ⟨rfl, rfl⟩ := hole_faces_node.mp hu
      exact hbinds
    · exact hall.2 y _ (hole_faces_node.mpr ⟨rfl, rfl⟩)
  | .node m h as, .node m' k bs, σ => by
    rw [unify, aligned_node]
    by_cases hk : h = k ∧ as.length = bs.length
    · rw [if_pos hk, unifyAll_fst_iff as bs σ]
      simp only [faces_node, hk, and_self, true_and]
    · rw [if_neg hk]
      exact iff_of_false Bool.false_ne_true fun hroot => hk hroot.1.1

/-- The list form of `unify_fst_iff`. -/
theorem unifyAll_fst_iff : (as bs : List (Expr α)) → (σ : Assignment α) →
    ((unifyAll as bs σ).1 = true ↔ (∀ p ∈ as.zip bs, p.1.Aligned p.2) ∧
      ∀ x u, (∃ p ∈ as.zip bs, p.1.Faces p.2 x u) → (unifyAll as bs σ).2.Binds x u)
  | a :: as, b :: bs, σ => by
    have hfirst := unify_fst_iff a b σ
    rw [unifyAll, List.zip_cons_cons]
    simp only [List.forall_mem_cons, List.exists_mem_cons_iff]
    cases hτ : unify a b σ with
    | mk ok τ =>
      rw [hτ] at hfirst
      cases ok with
      | false =>
        -- nothing is bound after the place that fails, so its holes stay as it has left them
        refine iff_of_false Bool.false_ne_true fun hall => Bool.false_ne_true (hfirst.mpr ?_)
        exact ⟨hall.1.1, fun x u hu => hall.2 x u (.inl hu)⟩
      | true =>
        obtain ⟨haligned, hbinds⟩ := hfirst.mp rfl
        have hgrows := grows_unifyAll as bs τ
        refine (unifyAll_fst_iff as bs τ).trans ⟨fun hrest => ?_, fun hall => ?_⟩
        · refine ⟨⟨haligned, hrest.1⟩, ?_⟩
          rintro x u (hu | hu)
          · -- what the first place has bound is kept by the others
            exact hgrows.binds (hbinds x u hu)
          · exact hrest.2 x u hu
        · exact ⟨hall.1.2, fun x u hu => hall.2 x u (.inr hu)⟩
  | [], bs, σ => by simp [unifyAll]
  | a :: as, [], σ => by simp [unifyAll]

end

/-- **Unification only adds bindings.** Let it start from any bindings, and let it succeed or fail,
at whatever depth. Every hole that was bound before keeps its value. Every hole that is bound now
and was not before is a hole of one of the two expressions, and its value is a part of one of them.
What is left also tells the outcome: unification has succeeded exactly if the expressions are
aligned and every hole is bound to all that it faces. -/
theorem unify_only_adds (a b : Expr α) (σ : Assignment α) :
    (∀ x u, σ.get? x = some u → (a.unify b σ).2.get? x = some u) ∧
      (∀ x u, σ.get? x = none → (a.unify b σ).2.get? x = some u →
        (x ∈ a.holeNames ∨ x ∈ b.holeNames) ∧
          ∃ path, a.at? path = some u ∨ b.at? path = some u) ∧
      ((a.unify b σ).1 = true ↔
        a.Aligned b ∧ ∀ x u, a.Faces b x u → (a.unify b σ).2.Binds x u) := by
  have hgrows := grows_unify a b σ
  refine ⟨hgrows.kept, fun x u hnone hsome => ?_, unify_fst_iff a b σ⟩
  have hfaces := hgrows.added x u hnone hsome
  exact ⟨hfaces.mem_holeNames, hfaces.exists_at?⟩

/-- To unify `f(g(#x, c), d)` with `f(g(b, #y), e)` fails at the last place, after a hole of each
expression has been bound. -/
theorem unify_fails_after_binding :
    let a : Expr Unit := term "f" [term "g" [var "x", const "c"], const "d"]
    let b : Expr Unit := term "f" [term "g" [const "b", var "y"], const "e"]
    let σ : Assignment Unit := [("z", const "k")]
    a.unify b σ = (false, [("z", const "k"), ("x", const "b"), ("y", const "c")]) ∧
      (a.unify b σ).2.get? "z" = some (const "k") ∧
      (("x" ∈ a.holeNames ∨ "x" ∈ b.holeNames) ∧
        ∃ path, a.at? path = some (const "b") ∨ b.at? path = some (const "b")) ∧
      ¬ (a.Aligned b ∧ ∀ x u, a.Faces b x u → (a.unify b σ).2.Binds x u) := by
  intro a b σ
  obtain ⟨hkept, hadded, houtcome⟩ := unify_only_adds a b σ
  refine ⟨rfl, hkept "z" (const "k") rfl, hadded "x" (const "b") rfl rfl, ?_⟩
  rw [← houtcome]
  decide

end Expr

end RuleProver
