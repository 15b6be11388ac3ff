import RuleProver.Proofs.Grants
import RuleProver.Proofs.PatternMatching

/-!
# Goals and their instances

Premises are peeled off a rule until what is left, its conclusion, unifies with the goal. This binds
holes on both sides. A hole of the conclusion is bound to what stands in its place in the goal, and
this is as it should be: the rule is used for the goal. But a hole of the goal that stands where the
conclusion has a node is bound as well, and then the rule is used for an instance of the goal only.
Nothing else in the tree is changed by the assignment.

So the conclusion becomes the goal exactly if no hole of the goal stands where the conclusion has a
node (`GoalState.LedBack.conclusion_same_iff`). The goal `f(#x)` is led back to `P` by the rule
`P => f(a)`, which leads to `f(a)` (`GoalState.ruleFor_constant_differs`).

## Main definitions

* `Expr.KeepsHoles` — no hole of an expression stands where another has a node
* `GoalState.LedBack` — `By` succeeds at its first attempt

## Main results

* `Expr.same_fill_iff_keepsHoles` — when unification fills one expression to the other
* `GoalState.LedBack.conclusion_same_iff` — when a rule leads to the goal itself
-/

namespace RuleProver

variable {α : Type}

namespace Assignment

/-- Every binding is kept, and every equation that is solved leaves one for its hole. -/
theorem exists_mem_of_solve {σ τ : Assignment α} {es : List (Equation α)}
    (h : σ.solve es = some τ) {x : String} {t : Expr α} (hx : (x, t) ∈ σ ∨ (x, t) ∈ es) :
    ∃ u, (x, u) ∈ τ ∧ u.erase = t.erase := by
  induction es generalizing σ t with
  | nil =>
    obtain rfl := Option.some.inj h
    exact ⟨t, hx.resolve_right List.not_mem_nil, rfl⟩
  | cons e es ih =>
    obtain ⟨y, v⟩ := e
    rw [solve] at h
    split at h
    · rename_i σ' hσ'
      obtain ⟨w, hw, hsame, rfl⟩ | ⟨-, rfl⟩ := bind_cases hσ'
      · -- the hole was bound to the same before
        rw [List.mem_cons, Prod.mk.injEq] at hx
        rcases hx with hx | ⟨rfl, rfl⟩ | hx
        · exact ih h (.inl hx)
        · obtain ⟨u, hu, herase⟩ := ih h (.inl hw)
          exact ⟨u, hu, herase.trans ((Expr.same_iff w t).mp hsame)⟩
        · exact ih h (.inr hx)
      · refine ih h ?_
        simp only [List.mem_append, List.mem_cons, List.not_mem_nil, or_false] at hx ⊢
        exact or_assoc.mpr hx
    · cases h

end Assignment

namespace Expr

variable {a b : Expr α} {σ : Assignment α} {es : List (Equation α)} {x : String} {u : Expr α}

/-! ## Equations between parts -/

theorem exists_equations_of_mem_zip {as bs : List (Expr α)} (h : equationsAll as bs = some es)
    {p : Expr α × Expr α} (hp : p ∈ as.zip bs) :
    ∃ fs, equations p.1 p.2 = some fs ∧ fs ⊆ es := by
  induction as generalizing bs es with
  | nil => simp at hp
  | cons a as ih =>
    cases bs with
    | nil => simp at hp
    | cons b bs =>
      rw [equationsAll] at h
      obtain ⟨fs, hfs, h⟩ := Option.bind_eq_some_iff.mp h
      obtain ⟨gs, hgs, rfl⟩ := Option.map_eq_some_iff.mp h
      rw [List.zip_cons_cons, List.mem_cons] at hp
      rcases hp with rfl | hp
      · exact ⟨fs, hfs, List.subset_append_left fs gs⟩
      · obtain ⟨fs', hfs', hsubset⟩ := ih hgs hp
        exact ⟨fs', hfs', List.subset_append_of_subset_right fs hsubset⟩

/-- What a hole of the second expression meets is an equation for it. -/
theorem mem_equations_of_meets (h : equations a b = some es) (hu : a.Meets b x u) :
    (x, u) ∈ es := by
  induction b generalizing a es with
  | hole m y =>
    obtain ⟨rfl, rfl⟩ := meets_hole.mp hu
    rw [equations] at h
    obtain rfl := Option.some.inj h
    exact List.mem_singleton_self _
  | node m k bs ih =>
    cases a with
    | hole m' y => exact absurd hu not_hole_meets_node
    | node m' h' as =>
      rw [equations] at h
      split at h
      · obtain ⟨p, hp, hu⟩ := meets_node.mp hu
        obtain ⟨fs, hfs, hsubset⟩ := exists_equations_of_mem_zip h hp
        exact hsubset (ih p.2 (List.of_mem_zip hp).2 hfs hu)
      · cases h

/-- No hole of `a` stands where `b` has a node. -/
def KeepsHoles (a b : Expr α) : Prop :=
  ∀ path m x, a.at? path = some (.hole m x) → ∀ m' h bs, b.at? path ≠ some (.node m' h bs)

theorem Ground.keepsHoles (ha : a.Ground) : a.KeepsHoles b := by
  intro path m x hhole
  have hx := mem_holes_of_at? hhole
  rw [ha] at hx
  exact absurd hx List.not_mem_nil

theorem Fits.keepsHoles (h : a.Fits b) : a.KeepsHoles b := by
  intro path m x hhole m' k bs hnode
  obtain ⟨m'', as, has, -⟩ := h path m' k bs hnode
  rw [hhole] at has
  cases has

theorem KeepsHoles.of_mem_zip {m m' : α} {h k : Head} {as bs : List (Expr α)}
    (hkeeps : (node m h as).KeepsHoles (.node m' k bs)) {p : Expr α × Expr α}
    (hp : p ∈ as.zip bs) : p.1.KeepsHoles p.2 := by
  obtain ⟨i, ha, hb⟩ := mem_zip_iff.mp hp
  intro path m₁ x hhole m₂ k' cs hnode
  refine hkeeps (i :: path) m₁ x ?_ m₂ k' cs ?_
  · rw [at?_node_cons, ha]
    exact hhole
  · rw [at?_node_cons, hb]
    exact hnode

/-- Where there are equations, only a hole of `a` can keep `a` from fitting. -/
theorem KeepsHoles.fits (hkeeps : a.KeepsHoles b) (h : equations a b = some es) : a.Fits b := by
  induction b generalizing a es with
  | hole m y => exact fits_hole a m y
  | node m k bs ih =>
    cases a with
    | hole m' x => exact absurd rfl (hkeeps [] m' x rfl m k bs)
    | node m' h' as =>
      rw [equations] at h
      split at h
      · rename_i hhead
        refine fits_node.mpr ⟨hhead, fun p hp => ?_⟩
        obtain ⟨fs, hfs, -⟩ := exists_equations_of_mem_zip h hp
        exact ih p.2 (List.of_mem_zip hp).2 (hkeeps.of_mem_zip hp) hfs
      · cases h

/-- **Unification fills the second expression to the first** exactly if no hole of the first stands
where the second has a node. Two holes in one place do not matter, since then the hole of the second
expression is bound. -/
theorem same_fill_iff_keepsHoles (h : a.unifier? b = some σ) :
    (b.fill σ).same a = true ↔ a.KeepsHoles b := by
  have hnodup := nodup_keys_of_unifier? h
  rw [unifier?_eq] at h
  obtain ⟨es, hes, hsolve⟩ := Option.bind_eq_some_iff.mp h
  rw [same_fill_iff]
  refine ⟨fun hfill => hfill.1.keepsHoles, fun hkeeps => ⟨hkeeps.fits hes, fun x u hu => ?_⟩⟩
  -- no binding of `σ` is filled in further, so a hole gets just what its equation says
  obtain ⟨v, hv, herase⟩ :=
    Assignment.exists_mem_of_solve hsolve (.inr (mem_equations_of_meets hes hu))
  rw [Assignment.andThen, Assignment.get?_of_mem hnodup hv, Option.elim_some, inst_var, herase]

end Expr

/-! ## Leading a goal back -/

namespace GoalState

open RuleProver.Expr (KeepsHoles Ground)

variable {S : GoalState} {rule g : Object} {force? : Option Object} {ps : List Object}
  {σ : Assignment Note}

/-- `By` succeeds at the goal `g`. At the first attempt, which takes the goal as the rule from
itself to itself, the rule leads to it from the premises `ps` by the assignment `σ`. -/
structure LedBack [HoleOrder] (S : GoalState) (rule : Object) (force? : Option Object) (g : Object)
    (ps : List Object) (σ : Assignment Note) : Prop where
  goal : S.goal? = some g
  succeeds : Succeeds (S.handleBy rule force?).2
  first : premisesFor ((goalTerm g).identity (symbolText g.goalSymbol)) (goalTerm g) rule =
    .ok (.ok (ps, σ))

/-- **When a rule leads to the goal itself**, and not only to an instance of it. The conclusion of
the reduced rule becomes the goal exactly if no hole of the goal stands where the conclusion has a
node. In particular it does for a goal without holes. -/
theorem LedBack.conclusion_same_iff [HoleOrder] (h : S.LedBack rule force? g ps σ) :
    ∃ r c, rule.reduce? = some r ∧ Leads r ps c ∧
      ((c.fill σ).same (goalTerm g) = true ↔ (goalTerm g).KeepsHoles c) ∧
      ((goalTerm g).Ground → (c.fill σ).same (goalTerm g) = true) := by
  obtain ⟨r, c, hr, hleads, hunified⟩ := exists_leads_of_premisesFor h.first
  have hsame := Expr.same_fill_iff_keepsHoles hunified
  exact ⟨r, c, hr, hleads, hsame, fun hground => hsame.mpr hground.keepsHoles⟩

/-! ### Rules for a goal with a hole -/

/-- The rule `P => f(t)`. -/
abbrev ruleFor (t : Object) : Object := .rule (.const "P") "=>" (.term "f" [t])

/-- The goal `f(#x)`, as it is stated. -/
abbrev openGoal : Object :=
  .node (.mk none (some (some "=>", .term "f" [.var "x"]))) .goal [.term "f" [.var "x"]]

/-- The state with the axiom `P => f(t)` and the goal `f(#x)`. -/
abbrev openState (t : Object) : GoalState :=
  ⟨some openGoal, [(some "=>", .const "True"), (some "=>", ruleFor t)]⟩

/-- The rule `P => f(#y)` leads to the goal `f(#x)` itself. -/
theorem ruleFor_hole_same :
    (openState (.var "y")).LedBack (ruleFor (.var "y")) none openGoal [.const "P"]
        [("y", .var "x")] ∧
      ∃ c, Leads (ruleFor (.var "y")) [.const "P"] c ∧ KeepsHoles (.term "f" [.var "x"]) c ∧
        (c.fill [("y", .var "x")]).same (.term "f" [.var "x"] : Object) = true := by
  have hled : (openState (.var "y")).LedBack (ruleFor (.var "y")) none openGoal [.const "P"]
      [("y", .var "x")] := ⟨rfl, ⟨_, rfl, rfl⟩, rfl⟩
  obtain ⟨r, c, hr, hleads, hsame, -⟩ := hled.conclusion_same_iff
  cases hr
  cases hleads with
  | premise hleads =>
    cases hleads
    exact ⟨hled, _, .premise (.conclusion _), hsame.mp rfl, rfl⟩

/-- The rule `P => f(a)` is accepted for the goal `f(#x)` too, but what it leads to is `f(a)`. -/
theorem ruleFor_constant_differs :
    (openState (.const "a")).LedBack (ruleFor (.const "a")) none openGoal [.const "P"]
        [("x", .const "a")] ∧
      Leads (ruleFor (.const "a")) [.const "P"] (.term "f" [.const "a"]) ∧
      ((Expr.term "f" [.const "a"] : Object).fill [("x", .const "a")]).same
        (.term "f" [.var "x"] : Object) = false :=
  ⟨⟨rfl, ⟨_, rfl, rfl⟩, rfl⟩, .premise (.conclusion _), rfl⟩

end GoalState

end RuleProver
