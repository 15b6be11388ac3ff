import RuleProver.Proofs.GroundReduction

/-!
# Passes that end where they began

Reducing stops as soon as a pass changes nothing, and what it returns should have no composition
left that succeeds. But that nothing has changed does not mean that nothing was done. A rule can put
together the very expression that it has been applied to, and then the pass carries out a
composition and ends where it began.

This is the only way in which a composition that succeeds is left behind. What reducing returns is
irreducible exactly when none of its compositions is rebuilt by a pass
(`irreducible_of_reduceWithin_iff`), and so it is when there are no holes to begin with. With holes
it may happen in one step, where a composition gives itself, and in several, where the pass reduces
the sides to something else first (`reduceWithin_reducible`).

## Main results

* `Expr.irreducible_iff_not_rebuilds` — irreducible expressions among those that a pass leaves alone
* `Expr.irreducible_of_reduceWithin_iff` — when reducing returns an irreducible expression
-/

namespace RuleProver

namespace Expr

variable {α : Type} [Inhabited α]

theorem rebuilds_erase [HoleOrder] {l r : Expr α} : Rebuilds l.erase r.erase ↔ Rebuilds l r := by
  rw [Rebuilds, reduceOnce_erase, reduceOnce_erase, compose_erase]
  have hsame : ∀ v : Expr α, v.erase.same (comp l.erase r.erase) = v.same (comp l r) := by
    intro v
    rw [← same_erase v, erase_node]
    rfl
  constructor
  · rintro ⟨w, hw, h⟩
    obtain ⟨v, hv, rfl⟩ := Option.map_eq_some_iff.mp hw
    exact ⟨v, hv, (hsame v).symm.trans h⟩
  · rintro ⟨v, hv, h⟩
    exact ⟨v.erase, by rw [hv, Option.map_some], (hsame v).trans h⟩

/-- A pass carries out no composition in an irreducible expression. -/
theorem Irreducible.eachComp_not_rebuilds [HoleOrder] {t : Expr Unit} (ht : t.Irreducible) :
    t.EachComp fun l r => ¬ Rebuilds l r := by
  induction t with
  | hole m x => exact eachComp_hole m x
  | node m h cs ih =>
    obtain ⟨hcs, hroot⟩ := irreducible_node.mp ht
    refine eachComp_node.mpr ⟨fun c hc => ih c hc (hcs c hc), ?_⟩
    rintro l r rfl rfl ⟨v, hv, -⟩
    rw [(hcs l (by simp)).reduceOnce_eq, (hcs r (by simp)).reduceOnce_eq,
      hroot l r rfl rfl] at hv
    cases hv

/-- An expression that a pass leaves alone is irreducible exactly when the pass rebuilds none of its
compositions. -/
theorem irreducible_iff_not_rebuilds [HoleOrder] {t : Expr α} (h : t.Reduced) :
    t.Irreducible ↔ t.EachComp fun l r => ¬ Rebuilds l r := by
  rw [Reduced, same_iff, ← reduceOnce_erase] at h
  have hrebuilds : (t.EachComp fun l r => ¬ Rebuilds l r) ↔
      t.erase.EachComp fun l r => ¬ Rebuilds l r := by
    rw [eachComp_erase]
    simp only [rebuilds_erase]
  rw [hrebuilds, ← irreducible_erase]
  exact ⟨fun ht => ht.eachComp_not_rebuilds, irreducible_of_reduceOnce_eq h⟩

/-- **When reducing returns an irreducible expression.** Whatever the limit, an expression that
reducing returns has no composition left that succeeds if and only if a pass rebuilds none of its
compositions. This is always so when the expression to be reduced has no holes. -/
theorem irreducible_of_reduceWithin_iff [HoleOrder] {limit : Nat} {t u : Expr α}
    (h : t.reduceWithin limit = some u) :
    (u.Irreducible ↔ u.EachComp fun l r => ¬ Rebuilds l r) ∧ (t.Ground → u.Irreducible) := by
  have hreduced := reduced_of_reduceWithin h
  refine ⟨irreducible_iff_not_rebuilds hreduced, fun ht => hreduced.irreducible ?_⟩
  exact ground_of_reflTransGen (reflTransGen_of_reduceWithin h) ht

/-- The rule `f(#x) => (#x | b)` leaves the composition `a | b` when it is applied to `f(a)`. It is
not rebuilt, since `b` is no rule. -/
theorem irreducible_of_stuck_composition :
    let t : Expr Unit :=
      comp (term "f" [const "a"]) (rule (term "f" [var "x"]) "=>" (comp (var "x") (const "b")))
    let u : Expr Unit := comp (const "a") (const "b")
    t.reduceWithin 100 = some u ∧ u.Irreducible := by
  intro t u
  have h : t.reduceWithin 100 = some u := by decide +kernel
  refine ⟨h, (irreducible_of_reduceWithin_iff h).1.mpr (eachComp_node.mpr ⟨?_, ?_⟩)⟩
  · simp [eachComp_node]
  · rintro l r - heq ⟨v, hv, -⟩
    obtain ⟨rfl, rfl⟩ : const "a" = l ∧ const "b" = r := by simpa using heq
    cases hv

/-- The rule `f(#y, #z) => (f(#y, #z) | #y)`, which applies the first argument to what the rule was
applied to. -/
abbrev again : Expr Unit :=
  rule (term "f" [var "y", var "z"]) "=>" (comp (term "f" [var "y", var "z"]) (var "y"))

/-- The rule `f(#y, #v, #w) => ((h(#v, #w) | (h(#p, #p) => f(#y, #v, #w))) | #y)`. The composition
in front succeeds once `#v` and `#w` are filled with the same expression, and it gives back what the
rule was applied to. -/
abbrev detour : Expr Unit :=
  rule (term "f" [var "y", var "v", var "w"]) "=>"
    (comp (comp (term "h" [var "v", var "w"])
      (rule (term "h" [var "p", var "p"]) "=>" (term "f" [var "y", var "v", var "w"]))) (var "y"))

/-- The composition `f(again, c) | again`, which gives itself. -/
abbrev againAgain : Expr Unit := comp (term "f" [again, const "c"]) again

/-- What `f(detour, a, a) | detour` gives. In a pass the composition in front is carried out, which
leads back to `f(detour, a, a) | detour`, and then `detour` is applied once more. -/
abbrev detourTaken : Expr Unit :=
  comp (comp (term "h" [const "a", const "a"])
    (rule (term "h" [var "p'", var "p'"]) "=>" (term "f" [detour, const "a", const "a"]))) detour

/-- Reducing returns `againAgain`, which is a composition that succeeds, and `detourTaken`, whose
left side is one. -/
theorem reduceWithin_reducible :
    (againAgain.reduceWithin 100 = some againAgain ∧ ¬ againAgain.Irreducible) ∧
      (comp (term "f" [detour, const "a", const "a"]) detour).reduceWithin 100 =
        some detourTaken ∧ ¬ detourTaken.Irreducible := by
  refine ⟨⟨by decide +kernel, fun h => ?_⟩, by decide +kernel, fun h => ?_⟩
  · have hnone := h [] () _ _ rfl
    exact absurd hnone (by decide +kernel)
  · have hnone := h [0] () _ _ rfl
    exact absurd hnone (by decide +kernel)

end Expr

end RuleProver
