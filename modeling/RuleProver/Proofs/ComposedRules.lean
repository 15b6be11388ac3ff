import RuleProver.Proofs.Equations
import RuleProver.Proofs.Freshening
import RuleProver.Proofs.GenericInstance

/-!
# What a composite of two rules says

A rule with holes relates the ground instances of its left side to those of its right side. The
composite of two rules should relate `u` to `w` exactly when there is a `v` that the first rule
reaches from `u` and the second rule takes to `w`.

Composition returns the instances of the outer sides under an assignment that is applied once. When
the inner sides repeat holes, a binding may mention a hole that is bound itself, and filling once
leaves that hole open: the composite of `#x => f(#x, #x)` and `f(#y, k) => #y` is `k => #x`, which
relates `k` to everything (`composeRules_unsound_of_doubling`). The composite is right exactly when
the values that it gives to the holes of the outer sides can be completed to a common instance of
the inner sides (`composeRules_sound_iff`).

For rules whose inner sides repeat no hole this is always so, and nothing is missed either
(`composeRules_exact`), whatever the order in which holes are renamed.

## Main results

* `Expr.composeRules_sound_iff` — when everything that a composite relates is related through both
* `Expr.composeRules_exact` — rules with linear inner sides compose exactly
-/

namespace RuleProver

variable {α : Type}

namespace Assignment

theorem ground_andThen {σ : Assignment α} {θ : String → Expr Unit} (hθ : ∀ x, (θ x).Ground)
    (x : String) : (σ.andThen θ x).Ground := by
  rw [andThen]
  cases σ.get? x with
  | none => exact hθ x
  | some u => exact Expr.ground_inst_iff.mpr fun y _ => hθ y

/-- Values that solve the bindings are not changed by them. -/
theorem andThen_eq_of_solves {σ : Assignment α} {θ : String → Expr Unit} (h : Solves θ σ) :
    σ.andThen θ = θ := by
  funext x
  rw [andThen]
  cases hx : σ.get? x with
  | none => rfl
  | some u => exact (h (x, u) (mem_of_get? hx)).symm

end Assignment

namespace Expr

/-! ## Rules and their instances -/

/-- In a ground instance the values may be taken to be ground for all holes, not only for those
that occur. -/
theorem groundInstance_iff {t : Expr α} {u : Expr Unit} :
    t.GroundInstance u ↔ ∃ θ : String → Expr Unit, (∀ x, (θ x).Ground) ∧ t.inst θ = u := by
  constructor
  · rintro ⟨θ, hθ, rfl⟩
    refine ⟨fun x => if x ∈ t.holes then θ x else const "", fun x => ?_, inst_congr fun x hx => ?_⟩
    · dsimp only
      split
      · rename_i hx
        exact hθ x hx
      · rfl
    · rw [if_pos hx]
  · rintro ⟨θ, hθ, rfl⟩
    exact ⟨θ, fun x _ => hθ x, rfl⟩

variable {m m' : α} {s : String} {a b c d : Expr α}

theorem groundInstance_rule_iff {u : Expr Unit} :
    (Expr.node m (.rule s) [a, b]).GroundInstance u ↔
      ∃ θ : String → Expr Unit, (∀ x, (θ x).Ground) ∧ rule (a.inst θ) s (b.inst θ) = u := by
  rw [groundInstance_iff]
  simp

/-- The rule `A` takes `u` to some `v` that the rule `B` takes to `w`, all without holes. -/
def Factors (A B : Expr α) (s : String) (u w : Expr Unit) : Prop :=
  ∃ v : Expr Unit, v.Ground ∧ A.GroundInstance (rule u s v) ∧ B.GroundInstance (rule v s w)

/-- Two rules factor a pair through values for the holes of each, under which the inner sides are
the same. -/
theorem factors_iff {u w : Expr Unit} :
    Factors (.node m (.rule s) [a, b]) (.node m' (.rule s) [c, d]) s u w ↔
      ∃ φ ψ : String → Expr Unit, (∀ x, (φ x).Ground) ∧ (∀ x, (ψ x).Ground) ∧
        b.inst φ = c.inst ψ ∧ a.inst φ = u ∧ d.inst ψ = w := by
  constructor
  · rintro ⟨v, -, hA, hB⟩
    obtain ⟨φ, hφ, hA⟩ := groundInstance_rule_iff.mp hA
    obtain ⟨ψ, hψ, hB⟩ := groundInstance_rule_iff.mp hB
    obtain ⟨rfl, rfl⟩ : a.inst φ = u ∧ b.inst φ = v := by simpa using hA
    obtain ⟨hv, rfl⟩ : c.inst ψ = b.inst φ ∧ d.inst ψ = w := by simpa using hB
    exact ⟨φ, ψ, hφ, hψ, hv.symm, rfl, rfl⟩
  · rintro ⟨φ, ψ, hφ, hψ, hv, rfl, rfl⟩
    refine ⟨b.inst φ, ground_inst_iff.mpr fun x _ => hφ x, ?_, ?_⟩
    · exact groundInstance_rule_iff.mpr ⟨φ, hφ, rfl⟩
    · exact groundInstance_rule_iff.mpr ⟨ψ, hψ, by rw [hv]⟩

/-! ## The composite -/

/-- The names that the holes of a second rule get when they are visited in the order `names`. -/
abbrev apart (A : Expr α) (names : List String) : String → String :=
  renameBy (freshen A.holeNames names)

theorem composeRulesVisiting_rule [Inhabited α] (names : List String) :
    composeRulesVisiting names (.node m (.rule s) [a, b]) (.node m' (.rule s) [c, d]) =
      (b.unifier? (c.rename (apart (.node m (.rule s) [a, b]) names))).map fun σ =>
        rule (a.fill σ) s ((d.rename (apart (.node m (.rule s) [a, b]) names)).fill σ) := by
  rw [composeRulesVisiting, if_pos rfl]

/-- The ground instances of the outer sides under an assignment, the second of them renamed. -/
theorem groundInstance_composite_iff [Inhabited α] {σ : Assignment α} {ρ : String → String}
    {u : Expr Unit} :
    (rule (a.fill σ) s ((d.rename ρ).fill σ)).GroundInstance u ↔
      ∃ θ : String → Expr Unit, (∀ x, (θ x).Ground) ∧
        rule (a.inst (σ.andThen θ)) s (d.inst fun x => σ.andThen θ (ρ x)) = u := by
  rw [groundInstance_rule_iff]
  simp only [inst_fill, inst_rename]

/-- Filling holes with what they are bound to, and then the holes that are left. -/
theorem inst_andThen_var (σ : Assignment α) (θ : String → Expr Unit) (x : String) :
    (σ.andThen var x).inst θ = σ.andThen θ x := by
  rw [Assignment.andThen, Assignment.andThen]
  cases σ.get? x with
  | none => exact inst_hole θ () x
  | some u => rw [Option.elim_some, Option.elim_some, inst_var, inst_erase]

/-- A composite whose values for the outer holes can be completed to a common instance of the
inner sides relates only what both rules relate. -/
theorem factors_of_completion [Inhabited α] {σ : Assignment α} {ρ : String → String}
    {φ ψ : String → Expr Unit} (hφ : ∀ x ∈ a.holes, φ x = σ.andThen var x)
    (hψ : ∀ x ∈ d.holes, ψ x = σ.andThen var (ρ x)) (hbc : b.inst φ = c.inst ψ) {u w : Expr Unit}
    (h : (rule (a.fill σ) s ((d.rename ρ).fill σ)).GroundInstance (rule u s w)) :
    Factors (.node m (.rule s) [a, b]) (.node m' (.rule s) [c, d]) s u w := by
  obtain ⟨θ, hθ, huw⟩ := groundInstance_composite_iff.mp h
  obtain ⟨rfl, rfl⟩ : a.inst (σ.andThen θ) = u ∧ (d.inst fun x => σ.andThen θ (ρ x)) = w := by
    simpa using huw
  have hground : ∀ t : Expr Unit, (t.inst θ).Ground := fun t =>
    ground_inst_iff.mpr fun x _ => hθ x
  refine factors_iff.mpr ⟨fun x => (φ x).inst θ, fun x => (ψ x).inst θ, fun x => hground _,
    fun x => hground _, ?_, ?_, ?_⟩
  · rw [← inst_inst, ← inst_inst, hbc]
  · exact inst_congr fun x hx => by rw [hφ x hx, inst_andThen_var]
  · exact inst_congr fun x hx => by rw [hψ x hx, inst_andThen_var]

/-! ## Soundness -/

/-- **When a composite is sound.** Everything that the composite of two rules relates is related
through both of them exactly when the values that it gives to the holes of the outer sides can be
completed to values under which the inner sides are the same. The holes of the second rule may be
visited in any order. -/
theorem composeRules_sound_iff [Inhabited α] {names : List String} {C : Expr α}
    (h : composeRulesVisiting names (.node m (.rule s) [a, b]) (.node m' (.rule s) [c, d]) =
      some C) :
    (∀ u w, C.GroundInstance (rule u s w) →
        Factors (.node m (.rule s) [a, b]) (.node m' (.rule s) [c, d]) s u w) ↔
      ∃ σ, b.unifier? (c.rename (apart (.node m (.rule s) [a, b]) names)) = some σ ∧
        ∃ φ ψ : String → Expr Unit, (∀ x ∈ a.holes, φ x = σ.andThen var x) ∧
          (∀ x ∈ d.holes, ψ x = σ.andThen var (apart (.node m (.rule s) [a, b]) names x)) ∧
          b.inst φ = c.inst ψ := by
  rw [composeRulesVisiting_rule] at h
  obtain ⟨σ, hσ, rfl⟩ := Option.map_eq_some_iff.mp h
  constructor
  · intro hsound
    -- the generic instance of the composite factors, and its middle melts into a pattern
    obtain ⟨κ, μ, hκ, hμκ, hμ⟩ := exists_generic (a :: b :: c :: d :: σ.map (·.2))
    have hbound : ∀ x, μ (σ.andThen κ x) = σ.andThen var x := by
      intro x
      rw [Assignment.andThen, Assignment.andThen]
      cases hx : σ.get? x with
      | none => exact hμκ x
      | some u =>
        have hu : u ∈ σ.map (·.2) := List.mem_map_of_mem (Assignment.mem_of_get? hx)
        rw [Option.elim_some, Option.elim_some, hμ u (by simp [hu])]
        simp only [hμκ]
    have hfac := hsound _ _ (groundInstance_composite_iff.mpr ⟨κ, hκ, rfl⟩)
    obtain ⟨φ, ψ, -, -, hv, ha, hd⟩ := factors_iff.mp hfac
    refine ⟨σ, hσ, fun x => μ (φ x), fun x => μ (ψ x), ?_, ?_, ?_⟩
    · have hmelt := congrArg μ ha
      rw [hμ a (by simp), hμ a (by simp), inst_eq_inst_iff] at hmelt
      exact fun x hx => (hmelt x hx).trans (hbound x)
    · have hmelt := congrArg μ hd
      rw [hμ d (by simp), hμ d (by simp), inst_eq_inst_iff] at hmelt
      exact fun x hx => (hmelt x hx).trans (hbound _)
    · rw [← hμ b (by simp), ← hμ c (by simp), hv]
  · rintro ⟨τ, hτ, φ, ψ, hφ, hψ, hbc⟩ u w huw
    obtain rfl : σ = τ := Option.some.inj (hσ.symm.trans hτ)
    exact factors_of_completion hφ hψ hbc huw

/-- The rule `#x => f(#x, #x)`. -/
abbrev doubling : Expr Unit := rule (var "x") "=>" (term "f" [var "x", var "x"])

/-- A repeated hole does no harm when both of its places get the same value: followed by
`f(#y, #z) => g(#z)`, doubling gives `#x => g(#x)`. -/
theorem composeRules_sound_of_doubling :
    doubling.composeRules (rule (term "f" [var "y", var "z"]) "=>" (term "g" [var "z"])) =
        some (rule (var "x") "=>" (term "g" [var "x"])) ∧
      ∀ u w, (rule (α := Unit) (var "x") "=>" (term "g" [var "x"])).GroundInstance
          (rule u "=>" w) →
        Factors doubling (rule (term "f" [var "y", var "z"]) "=>" (term "g" [var "z"])) "=>"
          u w := by
  have h : doubling.composeRules (rule (term "f" [var "y", var "z"]) "=>" (term "g" [var "z"])) =
      some (rule (var "x") "=>" (term "g" [var "x"])) := rfl
  refine ⟨h, (composeRules_sound_iff h).mpr
    ⟨[("y", var "x"), ("z", var "x")], rfl, var, fun _ => var "x", ?_, ?_, ?_⟩⟩
  · decide
  · decide
  · decide

/-- Followed by `f(#y, k) => #y`, doubling gives `k => #x`: first `y` is bound to `#x`, then `x` to
`k`, and the binding of `y` is not looked at again. So `k` is taken to everything, where the two
rules only take it to itself. -/
theorem composeRules_unsound_of_doubling :
    doubling.composeRules (rule (term "f" [var "y", const "k"]) "=>" (var "y")) =
        some (rule (const "k") "=>" (var "x")) ∧
      ¬ ∀ u w, (rule (α := Unit) (const "k") "=>" (var "x")).GroundInstance (rule u "=>" w) →
        Factors doubling (rule (term "f" [var "y", const "k"]) "=>" (var "y")) "=>" u w := by
  refine ⟨rfl, fun hsound => ?_⟩
  have hinst : (rule (α := Unit) (const "k") "=>" (var "x")).GroundInstance
      (rule (const "k") "=>" (const "j")) := ⟨fun _ => const "j", by decide, by decide⟩
  obtain ⟨φ, ψ, -, -, hv, hu, hw⟩ := factors_iff.mp (hsound _ _ hinst)
  have hmiddle : φ "x" = ψ "y" := (by simpa using hv : φ "x" = ψ "y" ∧ φ "x" = const "k").1
  have hx : φ "x" = const "k" := by simpa using hu
  have hy : ψ "y" = const "j" := by simpa using hw
  rw [hx, hy] at hmiddle
  exact absurd hmiddle (by decide)

/-! ## Exactness -/

/-- A renaming keeps the holes of `c` and `d` different from each other and from those of `a` and
`b`. -/
structure KeepsApart (ρ : String → String) (a b c d : Expr α) : Prop where
  /-- A new name is none of the names in `a` and `b`. -/
  fresh : ∀ x ∈ c.holes ++ d.holes, ρ x ∉ a.holes ++ b.holes
  /-- Different names get different new names. -/
  inj : ∀ x ∈ c.holes ++ d.holes, ∀ y ∈ c.holes ++ d.holes, ρ x = ρ y → x = y

/-- Renaming keeps apart as long as the names to be renamed have no primes. -/
theorem keepsApart_apart {names : List String} (hnames : ∀ x ∈ c.holes ++ d.holes, x ∈ names)
    (hprime : ∀ x ∈ c.holes ++ d.holes, prime ∉ x.toList) :
    KeepsApart (apart (.node m (.rule s) [a, b]) names) a b c d where
  fresh x hx hmem := by
    refine (renameBy_freshen _ (hnames x hx)).1
      (mem_holeNames (t := .node m (.rule s) [a, b]) |>.mpr ?_)
    simpa using hmem
  inj x hx y hy h :=
    renameBy_freshen_injOn (hnames x hx) (hnames y hy) (hprime x hx) (hprime y hy) h

namespace KeepsApart

variable {ρ : String → String}

/-- Values for the holes of two rules act on the renamed rules as one. -/
theorem exists_joint (h : KeepsApart ρ a b c d) {φ ψ : String → Expr Unit}
    (hφ : ∀ x, (φ x).Ground) (hψ : ∀ x, (ψ x).Ground) :
    ∃ τ : String → Expr Unit, (∀ x, (τ x).Ground) ∧ (∀ x ∈ a.holes ++ b.holes, τ x = φ x) ∧
      ∀ x ∈ c.holes ++ d.holes, τ (ρ x) = ψ x := by
  classical
  let τ : String → Expr Unit := fun z =>
    if h : ∃ x ∈ c.holes ++ d.holes, ρ x = z then ψ h.choose else φ z
  have hpos : ∀ z (h : ∃ x ∈ c.holes ++ d.holes, ρ x = z), τ z = ψ h.choose :=
    fun z h => dif_pos h
  have hneg : ∀ z, (¬ ∃ x ∈ c.holes ++ d.holes, ρ x = z) → τ z = φ z := fun z h => dif_neg h
  refine ⟨τ, fun z => ?_, fun z hz => hneg z ?_, fun x hx => ?_⟩
  · by_cases hz : ∃ x ∈ c.holes ++ d.holes, ρ x = z
    · rw [hpos z hz]
      exact hψ _
    · rw [hneg z hz]
      exact hφ z
  · rintro ⟨x, hx, rfl⟩
    exact h.fresh x hx hz
  · have hex : ∃ y ∈ c.holes ++ d.holes, ρ y = ρ x := ⟨x, hx, rfl⟩
    rw [hpos _ hex, h.inj _ hex.choose_spec.1 x hx hex.choose_spec.2]

/-- A common instance of the inner sides is one of the renamed inner sides, under values that fill
the outer sides alike. -/
theorem exists_joint_of_inst_eq (h : KeepsApart ρ a b c d) {φ ψ : String → Expr Unit}
    (hφ : ∀ x, (φ x).Ground) (hψ : ∀ x, (ψ x).Ground) (hbc : b.inst φ = c.inst ψ) :
    ∃ τ : String → Expr Unit, (∀ x, (τ x).Ground) ∧ b.inst τ = (c.rename ρ).inst τ ∧
      a.inst τ = a.inst φ ∧ (d.inst fun x => τ (ρ x)) = d.inst ψ := by
  obtain ⟨τ, hτ, hτab, hτcd⟩ := h.exists_joint hφ hψ
  refine ⟨τ, hτ, ?_, inst_congr fun x hx => hτab x (List.mem_append_left _ hx),
    inst_congr fun x hx => hτcd x (List.mem_append_right _ hx)⟩
  calc b.inst τ = b.inst φ := inst_congr fun x hx => hτab x (List.mem_append_right _ hx)
    _ = c.inst ψ := hbc
    _ = c.inst fun x => τ (ρ x) :=
      inst_congr fun x hx => (hτcd x (List.mem_append_left _ hx)).symm
    _ = (c.rename ρ).inst τ := (inst_rename τ ρ c).symm

/-- The holes of linear inner sides are all different once the second is renamed. -/
theorem nodup_inner (h : KeepsApart ρ a b c d) (hb : b.holes.Nodup) (hc : c.holes.Nodup) :
    (b.holes ++ (c.rename ρ).holes).Nodup := by
  rw [holes_rename]
  refine List.nodup_append.mpr ⟨hb, ?_, ?_⟩
  · refine List.Nodup.map_on (fun x hx y hy hxy => ?_) hc
    exact h.inj x (List.mem_append_left _ hx) y (List.mem_append_left _ hy) hxy
  · rintro y hy z hz rfl
    obtain ⟨x, hx, rfl⟩ := List.mem_map.mp hz
    exact h.fresh x (List.mem_append_left _ hx) (List.mem_append_right _ hy)

end KeepsApart

/-- What a unification binds in solved form, filled once, makes the inner sides the same. -/
theorem inst_inner_eq {σ : Assignment α} {ρ : String → String}
    (hσ : b.unifier? (c.rename ρ) = some σ) (hform : σ.SolvedForm) (θ : String → Expr Unit) :
    b.inst (σ.andThen θ) = c.inst fun x => σ.andThen θ (ρ x) := by
  have heq := (inst_eq_iff_of_unifier? hσ _).mpr (hform.solves (nodup_keys_of_unifier? hσ) θ)
  rwa [inst_rename] at heq

/-- **Rules with linear inner sides compose exactly.** Suppose that no hole occurs twice in the
right side of the first rule, none twice in the left side of the second, and no hole of the second
has a prime in its name. Then the rules fail to compose exactly when the inner sides have no ground
instance in common, and a composite relates exactly what the two rules relate one after the other.
The holes of the second rule may be visited in any order. -/
theorem composeRules_exact [Inhabited α] {names : List String} (hb : b.holes.Nodup)
    (hc : c.holes.Nodup)
    (hprime : ∀ x ∈ (Expr.node m' (.rule s) [c, d]).holes, prime ∉ x.toList)
    (hnames : ∀ x, x ∈ names ↔ x ∈ (Expr.node m' (.rule s) [c, d]).holes) :
    (composeRulesVisiting names (.node m (.rule s) [a, b]) (.node m' (.rule s) [c, d]) = none ↔
        ¬ ∃ v, b.GroundInstance v ∧ c.GroundInstance v) ∧
      ∀ C, composeRulesVisiting names (.node m (.rule s) [a, b]) (.node m' (.rule s) [c, d]) =
          some C → ∀ t, C.GroundInstance t ↔ ∃ u w, t = rule u s w ∧
            Factors (.node m (.rule s) [a, b]) (.node m' (.rule s) [c, d]) s u w := by
  have hholes : (Expr.node m' (.rule s) [c, d]).holes = c.holes ++ d.holes := by simp
  rw [hholes] at hprime hnames
  have hapart : KeepsApart (apart (.node m (.rule s) [a, b]) names) a b c d :=
    keepsApart_apart (fun x hx => (hnames x).mpr hx) hprime
  obtain ⟨hequations, hform⟩ := unifier?_of_nodup (hapart.nodup_inner hb hc)
  rw [composeRulesVisiting_rule]
  refine ⟨?_, fun C hC t => ?_⟩
  · rw [Option.map_eq_none_iff]
    constructor
    · rintro hnone ⟨v, hbv, hcv⟩
      obtain ⟨φ, hφ, rfl⟩ := groundInstance_iff.mp hbv
      obtain ⟨ψ, hψ, hv⟩ := groundInstance_iff.mp hcv
      obtain ⟨τ, -, hτ, -, -⟩ := hapart.exists_joint_of_inst_eq hφ hψ hv.symm
      obtain ⟨es, hes, -⟩ := (inst_eq_iff_equations τ _ _).mp hτ
      rw [hequations, hes] at hnone
      simp at hnone
    · intro hno
      by_contra hsome
      obtain ⟨σ, hσ⟩ := Option.ne_none_iff_exists'.mp hsome
      have hground := Assignment.ground_andThen (σ := σ) (θ := fun _ => const "") fun _ => rfl
      exact hno ⟨_, groundInstance_iff.mpr ⟨_, hground, rfl⟩,
        groundInstance_iff.mpr ⟨_, fun x => hground _, (inst_inner_eq hσ (hform σ hσ) _).symm⟩⟩
  · obtain ⟨σ, hσ, rfl⟩ := Option.map_eq_some_iff.mp hC
    constructor
    · intro ht
      obtain ⟨θ, hθ, rfl⟩ := groundInstance_composite_iff.mp ht
      exact ⟨_, _, rfl, factors_of_completion (fun _ _ => rfl) (fun _ _ => rfl)
        (inst_inner_eq hσ (hform σ hσ) var) ht⟩
    · rintro ⟨u, w, rfl, huw⟩
      obtain ⟨φ, ψ, hφ, hψ, hbc, rfl, rfl⟩ := factors_iff.mp huw
      obtain ⟨τ, hτ, hτbc, hτa, hτd⟩ := hapart.exists_joint_of_inst_eq hφ hψ hbc
      have hfix := Assignment.andThen_eq_of_solves ((inst_eq_iff_of_unifier? hσ τ).mp hτbc)
      refine groundInstance_composite_iff.mpr ⟨τ, hτ, ?_⟩
      rw [hfix, hτa, hτd]

/-- Two rules that share the name `x`, and repeat it where they may: `#x => f(#x, #y)` and
`f(g(#x), #z) => h(#x, #x)`. -/
theorem composeRules_exact_shared :
    let A : Expr Unit := rule (var "x") "=>" (term "f" [var "x", var "y"])
    let B : Expr Unit :=
      rule (term "f" [term "g" [var "x"], var "z"]) "=>" (term "h" [var "x", var "x"])
    (A.composeRules B = none ↔
        ¬ ∃ v, (term (α := Unit) "f" [var "x", var "y"]).GroundInstance v ∧
          (term (α := Unit) "f" [term "g" [var "x"], var "z"]).GroundInstance v) ∧
      ∀ C, A.composeRules B = some C →
        ∀ t, C.GroundInstance t ↔ ∃ u w, t = rule u "=>" w ∧ Factors A B "=>" u w :=
  composeRules_exact (by decide) (by decide) (by decide) fun _ => mem_holeNames

end Expr

end RuleProver
