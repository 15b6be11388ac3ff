import RuleProver.Goal.Step
import RuleProver.Proofs.GroundReduction
import RuleProver.Proofs.RuleApplication
import RuleProver.Proofs.VisitingOrder

/-!
# The currifier

A rule with two premises is composed with the rest of a proof by means of the currifier, which says
that whatever the conclusion leads to, the premises lead to as well. One pass of reduction carries
out all of the compositions inside the currifier and leaves a rule with holes (`currying`).

This rule is applied to a rule with two premises (`compose_currying`), and what comes out is applied
to the rule from the conclusion to itself, which gives back the rule with two premises
(`compose_curried`). Both need that the conclusion is no rule under the same symbol. Otherwise rules
would be chained where one should be applied to the other.

## Main definitions

* `Expr.currying` — what the currifier says
* `Expr.curried` — what the currifier makes of a rule with two premises

## Main results

* `Expr.reduceOnce_currifier` — one pass makes `currying` of the currifier
* `Expr.compose_currying`, `Expr.compose_curried` — the two compositions that the currifier is for
-/

namespace RuleProver

namespace Expr

variable {s : String} {a c d : Expr Unit}

/-- The rule that leads from the premises `a` and `c` to `d`. -/
abbrev twoPremises (a c : Expr Unit) (s : String) (d : Expr Unit) : Expr Unit :=
  rule a s (rule c s d)

/-- What the currifier says, as a rule without compositions. -/
def currying (s : String) : Expr Unit :=
  rule (twoPremises (var "X") (var "Y") s (var "Z")) s
    (rule (rule (var "Z") s (var "W")) s (twoPremises (var "X") (var "Y") s (var "W")))

/-- What the currifier makes of a rule with two premises: anything that `d` leads to, the premises
lead to as well. -/
def curried (a c : Expr Unit) (s : String) (d : Expr Unit) : Expr Unit :=
  rule (rule d s (var "W")) s (twoPremises a c s (var "W"))

/-- A rule for the hole `#x` applies to this hole, once its own hole is renamed. -/
theorem compose_var_rule [HoleOrder] {x : String} {q : Expr Unit}
    (hprime : ∀ z ∈ (rule (var x) s q).holes, prime ∉ z.toList) (hx : x ∉ q.holes) :
    (var x : Expr Unit).compose (rule (var x) s q) = some q := by
  have hidentity : (rule (var x) s (var x) : Expr Unit).holeNames = [x] := by
    simp [holeNames, List.eraseDups_cons]
  have hvisited := visitedIn_visit (rule (var x) s q)
  generalize hnames : HoleOrder.visit (rule (var x) s q).erase = names at hvisited
  have hnew : ∀ z ∈ (rule (var x) s q).holes,
      apart (rule (var x) s (var x) : Expr Unit) names z = freshName [x] z := by
    intro z hz
    rw [apart, hidentity]
    exact renameBy_freshen_eq_freshName hvisited.nodup
      (fun y hy => hprime y ((hvisited.mem_iff y).mp hy)) ((hvisited.mem_iff z).mpr hz)
  have hrename : q.rename (apart (rule (var x) s (var x) : Expr Unit) names) = q := by
    refine rename_eq_self fun z hz => ?_
    rw [hnew z (by simp [hz])]
    exact freshName_of_not_mem fun hmem => hx (List.mem_singleton.mp hmem ▸ hz)
  -- the new name has a prime, and no hole of `q` has one
  have hfill : q.fill [(freshName [x] x, var x)] = q := by
    refine fill_eq_self fun z hz => ?_
    have hne : z ≠ freshName [x] x := by
      rintro rfl
      have hsame := (primed_freshName [x] x).unique (Primed.refl _) (hprime x (by simp))
        (hprime _ (by simp [hz]))
      exact freshName_not_mem [x] x (List.mem_singleton.mpr hsame.symm)
    rw [Assignment.get?, List.lookup_cons, beq_eq_false_iff_ne.mpr hne]
    rfl
  rw [compose, show (var x : Expr Unit).composeRules (rule (var x) s q) = none from rfl]
  dsimp only
  rw [composeRules, hnames, identity, composeRulesVisiting_rule, hrename, rename_hole,
    hnew x (by simp)]
  exact congrArg some hfill

theorem erase_currifier (s : String) : (currifier s).erase =
    rule (twoPremises (var "X") (var "Y") s (var "Z")) s (rule (rule (var "Z") s (var "W")) s
      (twoPremises (var "X") (var "Y") s (comp (comp (var "Y") (comp (var "X")
        (twoPremises (var "X") (var "Y") s (var "Z")))) (rule (var "Z") s (var "W"))))) :=
  rfl

/-- The compositions inside the currifier are all carried out in one step. -/
theorem reduceOnce_currifier [HoleOrder] (s : String) :
    (currifier s).erase.reduceOnce = currying s := by
  have hX : (var "X" : Expr Unit).compose (twoPremises (var "X") (var "Y") s (var "Z")) =
      some (rule (var "Y") s (var "Z")) :=
    compose_var_rule (by simp [prime]) (by simp)
  have hY : (var "Y" : Expr Unit).compose (rule (var "Y") s (var "Z")) = some (var "Z") :=
    compose_var_rule (by simp [prime]) (by simp)
  have hZ : (var "Z" : Expr Unit).compose (rule (var "Z") s (var "W")) = some (var "W") :=
    compose_var_rule (by simp [prime]) (by simp)
  have hbuilt : (comp (comp (var "Y") (comp (var "X")
      (twoPremises (var "X") (var "Y") s (var "Z")))) (rule (var "Z") s (var "W")) :
        Expr Unit).reduceOnce = var "W" := by
    simp only [reduceOnce_comp, reduceOnce_rule, reduceOnce_hole, contract, hX, hY, hZ,
      Option.getD_some]
  rw [erase_currifier]
  simp only [reduceOnce_rule, reduceOnce_hole, hbuilt, currying]

/-- A rule with two premises unifies with the pattern of such rules. -/
theorem unifier?_twoPremises (a c : Expr Unit) (s : String) (d : Expr Unit) :
    (twoPremises a c s d).unifier? (twoPremises (var "X") (var "Y") s (var "Z")) =
      some [("X", a), ("Y", c), ("Z", d)] := by
  have hequations : equations (twoPremises a c s d)
      (twoPremises (var "X") (var "Y") s (var "Z")) = some [("X", a), ("Y", c), ("Z", d)] := by
    simp [equations, equationsAll]
  rw [unifier?_eq, hequations]
  rfl

/-- The currifier applies to a rule with two premises whose conclusion is no rule. -/
theorem compose_currying [HoleOrder] (ha : a.Ground) (hc : c.Ground) (hd : d.Ground)
    (hrule : ¬ d.IsRule s) :
    (twoPremises a c s d).compose (currying s) = some (curried a c s d) := by
  have hright : (rule c s d).Ground := ground_pair.mpr ⟨hc, hd⟩
  have hground : (twoPremises a c s d).Ground := ground_pair.mpr ⟨ha, hright⟩
  -- chaining would take `c s d` for a rule with two premises, and `d` for a rule
  have hnone : (twoPremises a c s d).composeRules (currying s) = none := by
    by_contra hsome
    obtain ⟨C, hC⟩ := Option.ne_none_iff_exists'.mp hsome
    obtain ⟨m₁, m₂, s', l, r, l', r', ρ, σ, hleft, hcurrying, hσ, -⟩ := exists_of_composeRules hC
    cases hleft
    cases hcurrying
    obtain ⟨φ, hφ⟩ := exists_inst_eq_of_unifier? hσ (.inl hright)
    rw [inst_of_ground hright, erase_unit, inst_rename, inst_node] at hφ
    obtain ⟨-, -, hsides⟩ := node.inj hφ
    exact hrule ⟨_, _, _, (List.cons.inj (List.cons.inj hsides).2).1⟩
  rw [currying, compose_of_composeRules_eq_none hnone fun x hx => by rw [hground] at hx; simp at hx,
    unifier?_twoPremises]
  rfl

/-- What the currifier has made of a rule with two premises applies to the rule from the conclusion
to itself, and gives the rule with two premises back. -/
theorem compose_curried [HoleOrder] (ha : a.Ground) (hc : c.Ground) (hd : d.Ground)
    (hrule : ¬ d.IsRule s) :
    (rule d s d).compose (curried a c s d) = some (twoPremises a c s d) := by
  have hground : (rule d s d).Ground := ground_pair.mpr ⟨hd, hd⟩
  have hnone : (rule d s d).composeRules (curried a c s d) = none := by
    by_contra hsome
    obtain ⟨C, hC⟩ := Option.ne_none_iff_exists'.mp hsome
    obtain ⟨m₁, m₂, s', l, r, l', r', ρ, σ, hleft, hcurried, hσ, -⟩ := exists_of_composeRules hC
    cases hleft
    cases hcurried
    obtain ⟨φ, hφ⟩ := exists_inst_eq_of_unifier? hσ (.inl hd)
    rw [inst_of_ground hd, erase_unit, inst_rename, inst_node] at hφ
    exact hrule ⟨_, _, _, hφ⟩
  have hσ : (rule d s d).unifier? (rule d s (var "W")) = some [("W", d)] := by
    have hequations : equations (rule d s d) (rule d s (var "W")) = some [("W", d)] := by
      simp [equations, equationsAll, equations_of_ground hd hd]
    rw [unifier?_eq, hequations]
    rfl
  have hfill : (twoPremises a c s (var "W")).fill [("W", d)] = twoPremises a c s d := by
    have ha' := fill_of_ground ha [("W", d)]
    have hc' := fill_of_ground hc [("W", d)]
    rw [fill] at ha' hc' ⊢
    simp [ha', hc', Assignment.get?]
  rw [curried, compose_of_composeRules_eq_none hnone fun x hx => by rw [hground] at hx; simp at hx,
    hσ, Option.map_some, hfill]

end Expr

end RuleProver
