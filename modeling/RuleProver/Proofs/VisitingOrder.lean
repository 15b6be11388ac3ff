import RuleProver.Proofs.ComposedRules
import RuleProver.Proofs.Marks

/-!
# The order in which holes are visited

Before two rules are composed, the hole names of the second are visited one after the other, in an
order that is left open (`HoleOrder`), and those that are reserved get new names. At first the names
of the first rule are reserved, and each new name is reserved from then on (`reserve`). Names that
are only waiting for their turn are not, nor are those that had their turn and stayed.

So a new name differs from the names of the first rule and from the new names given before, but it
may be one that a hole has kept. The renaming merges holes in this case only
(`apart_injective_iff`), and whether it comes to this is a matter of the order: with `#x` in the
first rule, the holes `#x` and `#x'` of the second stay apart when `#x` comes first, and otherwise
both are called `#x'` (`apart_merges`).

For names without primes the order makes no difference. What is given to one of them is no primed
form of another, so each gets the name that it would get if it were the only one
(`renameBy_freshen_eq_freshName`), and the composite is always the same
(`composeRulesVisiting_eq_of_visitedIn`).

## Main definitions

* `reserve` — the reserved names after one more name has been visited
* `Expr.VisitedIn` — an order in which the hole names of an expression can be visited

## Main results

* `Expr.apart_injective_iff` — when renaming keeps the holes of the second rule apart
* `Expr.composeRulesVisiting_eq_of_visitedIn` — the composite does not depend on the order
-/

namespace RuleProver

/-! ## One name after the other -/

section Names

variable {reserved names : List String} {x y z : String}

theorem freshName_of_not_mem (h : x ∉ reserved) : freshName reserved x = x := by
  rw [freshName, if_neg h]

/-- The names that are reserved once `z` has been visited. -/
def reserve (reserved : List String) (z : String) : List String :=
  if z ∈ reserved then freshName reserved z :: reserved else reserved

/-- The first name visited gets a name that is new so far. -/
theorem renameBy_freshen_cons_self (h : z ∉ names) :
    renameBy (freshen reserved (z :: names)) z = freshName reserved z := by
  rw [freshen]
  by_cases hz : z ∈ reserved
  · rw [if_pos hz, renameBy, List.lookup_cons, beq_self_eq_true]
    rfl
  · rw [if_neg hz, renameBy, lookup_freshen_of_not_mem h, freshName_of_not_mem hz]
    rfl

/-- The others are visited after it. -/
theorem renameBy_freshen_cons_of_ne (h : x ≠ z) :
    renameBy (freshen reserved (z :: names)) x =
      renameBy (freshen (reserve reserved z) names) x := by
  rw [freshen, reserve]
  by_cases hz : z ∈ reserved
  · have hne : (x == z) = false := by simpa using h
    rw [if_pos hz, if_pos hz, renameBy, renameBy, List.lookup_cons, hne]
  · rw [if_neg hz, if_neg hz]

/-- Where a name does not stay, neither it nor its new name is given to a name visited later. -/
theorem pairwise_renameBy_freshen (reserved : List String) (hnames : names.Nodup) :
    names.Pairwise fun x y => renameBy (freshen reserved names) x ≠ x →
      renameBy (freshen reserved names) y ≠ x ∧
        renameBy (freshen reserved names) y ≠ renameBy (freshen reserved names) x := by
  induction names generalizing reserved with
  | nil => exact List.Pairwise.nil
  | cons z names ih =>
    obtain ⟨hz, hnodup⟩ := List.nodup_cons.mp hnames
    have hne : ∀ y ∈ names, y ≠ z := fun y hy hyz => hz (hyz ▸ hy)
    refine List.pairwise_cons.mpr ⟨fun y hy => ?_, ?_⟩
    · rw [renameBy_freshen_cons_self hz, renameBy_freshen_cons_of_ne (hne y hy)]
      intro hmoved
      have hmem : z ∈ reserved := by
        by_contra hmem
        exact hmoved (freshName_of_not_mem hmem)
      have hreserve : reserve reserved z = freshName reserved z :: reserved := if_pos hmem
      have hfresh := (renameBy_freshen (reserve reserved z) hy).1
      rw [hreserve, List.mem_cons, not_or] at hfresh
      rw [hreserve]
      exact ⟨fun heq => hfresh.2 (by rw [heq]; exact hmem), hfresh.1⟩
    · refine (ih (reserve reserved z) hnodup).imp_of_mem fun {x y} hx hy hxy => ?_
      rwa [renameBy_freshen_cons_of_ne (hne x hx), renameBy_freshen_cons_of_ne (hne y hy)]

/-- **When different names stay different.** Renaming merges names exactly when one gets the name of
another that was visited before it. -/
theorem renameBy_freshen_injective_iff (reserved : List String) (hnames : names.Nodup) :
    (∀ x ∈ names, ∀ y ∈ names,
        renameBy (freshen reserved names) x = renameBy (freshen reserved names) y → x = y) ↔
      names.Pairwise fun x y => renameBy (freshen reserved names) y ≠ x := by
  have hmoved := pairwise_renameBy_freshen reserved hnames
  rw [← List.nodup_map_iff_inj_on hnames, List.Nodup, List.pairwise_map]
  constructor
  · intro hinj
    refine (hmoved.and hinj).imp fun {x y} h heq => ?_
    by_cases hx : renameBy (freshen reserved names) x = x
    · exact h.2 (hx.trans heq.symm)
    · exact (h.1 hx).1 heq
  · intro hkept
    refine (hmoved.and hkept).imp fun {x y} h heq => ?_
    by_cases hx : renameBy (freshen reserved names) x = x
    · exact h.2 (heq.symm.trans hx)
    · exact (h.1 hx).2 heq.symm

/-! ## Names without primes -/

/-- A reserved name that is no primed form of `x` does not matter to `x`. -/
theorem freshName_cons_of_not_primed (h : ¬ Primed x y) :
    freshName (y :: reserved) x = freshName reserved x := by
  fun_induction freshName reserved x with
  | case1 x hx ih =>
    rw [freshName, if_pos (List.mem_cons_of_mem y hx)]
    exact ih fun hprimed => h (primed_append_prime hprimed)
  | case2 x hx =>
    refine freshName_of_not_mem fun hmem => ?_
    rcases List.mem_cons.mp hmem with rfl | hmem
    · exact h (Primed.refl x)
    · exact hx hmem

theorem freshName_reserve (hne : x ≠ z) (hx : prime ∉ x.toList) (hz : prime ∉ z.toList) :
    freshName (reserve reserved z) x = freshName reserved x := by
  rw [reserve]
  by_cases hmem : z ∈ reserved
  · rw [if_pos hmem]
    exact freshName_cons_of_not_primed fun hprimed =>
      hne (hprimed.unique (primed_freshName reserved z) hx hz)
  · rw [if_neg hmem]

/-- **Names without primes do not get in each other's way.** Each gets the name that it would get if
it were the only one. -/
theorem renameBy_freshen_eq_freshName (hnames : names.Nodup)
    (hprime : ∀ y ∈ names, prime ∉ y.toList) (hx : x ∈ names) :
    renameBy (freshen reserved names) x = freshName reserved x := by
  induction names generalizing reserved with
  | nil => cases hx
  | cons z names ih =>
    obtain ⟨hz, hnodup⟩ := List.nodup_cons.mp hnames
    obtain ⟨hzprime, hprimes⟩ := List.forall_mem_cons.mp hprime
    by_cases hxz : x = z
    · rw [hxz, renameBy_freshen_cons_self hz]
    · have hxnames : x ∈ names := (List.mem_cons.mp hx).resolve_left hxz
      rw [renameBy_freshen_cons_of_ne hxz, ih hnodup hprimes hxnames,
        freshName_reserve hxz (hprimes x hxnames) hzprime]

theorem nodup_eraseDups : (names : List String) → names.eraseDups.Nodup
  | [] => by simp
  | x :: names => by
    rw [List.eraseDups_cons, List.nodup_cons]
    exact ⟨by simp, nodup_eraseDups _⟩
termination_by names => names.length
decreasing_by exact Nat.lt_succ_of_le (List.length_filter_le _ _)

end Names

namespace Expr

variable {α : Type}

theorem rename_congr {ρ ρ' : String → String} {t : Expr α} (h : ∀ x ∈ t.holes, ρ x = ρ' x) :
    t.rename ρ = t.rename ρ' := by
  induction t with
  | hole m x => rw [rename_hole, rename_hole, h x (by simp)]
  | node m k cs ih =>
    rw [rename_node, rename_node]
    refine congrArg _ (List.map_congr_left fun c hc => ih c hc fun x hx => h x ?_)
    rw [holes_node]
    exact List.mem_flatMap.mpr ⟨c, hc, hx⟩

/-- An order in which the hole names of an expression can be visited: every name comes up once. -/
structure VisitedIn (t : Expr α) (names : List String) : Prop where
  /-- No name comes up twice. -/
  nodup : names.Nodup
  /-- The names are those of the holes. -/
  mem_iff : ∀ x, x ∈ names ↔ x ∈ t.holes

/-- Whatever the order is, every hole name is visited once. -/
theorem visitedIn_visit [HoleOrder] (t : Expr α) : t.VisitedIn (HoleOrder.visit t.erase) where
  nodup := (HoleOrder.visit_perm _).nodup_iff.mpr (nodup_eraseDups _)
  mem_iff _ := mem_visit_erase

/-! ## Merged holes -/

/-- **When renaming keeps holes apart.** Let the holes of a second rule `B` be visited in any order
and be renamed apart from those of a first rule `A`. The renamed rule has no hole in common with
`A`. Different holes of `B` stay different exactly when none gets the name of a hole that was
visited before it, and they do when every name is visited before its primed forms. -/
theorem apart_injective_iff {A B : Expr α} {names : List String} (h : B.VisitedIn names) :
    (∀ x ∈ (B.rename (A.apart names)).holes, x ∉ A.holes) ∧
      ((∀ x ∈ B.holes, ∀ y ∈ B.holes, A.apart names x = A.apart names y → x = y) ↔
        names.Pairwise fun x y => A.apart names y ≠ x) ∧
      ((names.Pairwise fun x y => ¬ Primed y x) →
        ∀ x ∈ B.holes, ∀ y ∈ B.holes, A.apart names x = A.apart names y → x = y) := by
  have hiff := renameBy_freshen_injective_iff A.holeNames h.nodup
  simp only [h.mem_iff] at hiff
  refine ⟨fun x hx hxA => ?_, hiff, fun hordered => hiff.mpr ?_⟩
  · rw [holes_rename] at hx
    obtain ⟨y, hy, rfl⟩ := List.mem_map.mp hx
    exact (renameBy_freshen A.holeNames ((h.mem_iff y).mpr hy)).1 (mem_holeNames.mpr hxA)
  · refine hordered.imp_of_mem fun {x y} _ hy hprimed heq => hprimed ?_
    have hnew := (renameBy_freshen A.holeNames hy).2
    rwa [heq] at hnew

/-- The rule `f(#x', #x) => k`, one of whose hole names is a primed form of the other. -/
abbrev primedPair : Expr Unit := rule (term "f" [var "x'", var "x"]) "=>" (const "k")

/-- Visited in the order `#x`, `#x'`, the holes of `primedPair` stay apart although both have to be
renamed. -/
theorem apart_injective_primedPair :
    let A : Expr Unit := rule (var "x") "=>" (term "f" [const "a", const "b"])
    primedPair.VisitedIn ["x", "x'"] ∧
      ((["x", "x'"].Pairwise fun x y => A.apart ["x", "x'"] y ≠ x) ∧
        ∀ x ∈ primedPair.holes, ∀ y ∈ primedPair.holes,
          A.apart ["x", "x'"] x = A.apart ["x", "x'"] y → x = y) := by
  intro A
  have hvisited : primedPair.VisitedIn ["x", "x'"] := ⟨by decide, by simp [or_comm]⟩
  have hpairwise : ["x", "x'"].Pairwise fun x y => A.apart ["x", "x'"] y ≠ x := by
    decide +kernel
  exact ⟨hvisited, hpairwise, (apart_injective_iff hvisited).2.1.mpr hpairwise⟩

/-- Visited in the order `#x'`, `#x`, the holes of `primedPair` are merged: the first is not
reserved and stays, and the second gets the same name. The rule then does not follow
`#x => f(a, b)`, though it does in the other order. -/
theorem apart_merges :
    let A : Expr Unit := rule (var "x") "=>" (term "f" [const "a", const "b"])
    primedPair.VisitedIn ["x'", "x"] ∧
      A.apart ["x'", "x"] "x'" = "x'" ∧ A.apart ["x'", "x"] "x" = "x'" ∧
      composeRulesVisiting ["x'", "x"] A primedPair = none ∧
      composeRulesVisiting ["x", "x'"] A primedPair = some (rule (var "x") "=>" (const "k")) := by
  intro A
  refine ⟨⟨by decide, by simp⟩, ?_, ?_, ?_, ?_⟩
  · decide +kernel
  · decide +kernel
  · decide +kernel
  · decide +kernel

/-! ## Composites -/

variable [Inhabited α]

/-- Only what the renaming does to the holes of the second rule matters to the composite. -/
theorem composeRulesVisiting_congr {A B : Expr α} {names names' : List String}
    (h : ∀ x ∈ B.holes, A.apart names x = A.apart names' x) :
    composeRulesVisiting names A B = composeRulesVisiting names' A B := by
  unfold composeRulesVisiting
  split
  · rename_i m s a b m' s' c d
    split
    · have hc : c.rename (apart (.node m (.rule s) [a, b]) names) =
          c.rename (apart (.node m (.rule s) [a, b]) names') :=
        rename_congr fun x hx => h x (by simp [hx])
      have hd : d.rename (apart (.node m (.rule s) [a, b]) names) =
          d.rename (apart (.node m (.rule s) [a, b]) names') :=
        rename_congr fun x hx => h x (by simp [hx])
      dsimp only
      rw [hc, hd]
    · rfl
  · rfl

/-- **The order does not matter for names without primes.** When no hole of the second rule has a
prime in its name, two rules have the same composite, or none, in whatever order the holes of the
second are visited. -/
theorem composeRulesVisiting_eq_of_visitedIn {A B : Expr α}
    (hprime : ∀ x ∈ B.holes, prime ∉ x.toList) {names names' : List String}
    (h : B.VisitedIn names) (h' : B.VisitedIn names') :
    composeRulesVisiting names A B = composeRulesVisiting names' A B := by
  refine composeRulesVisiting_congr fun x hx => ?_
  have hname : ∀ {names : List String}, B.VisitedIn names →
      A.apart names x = freshName A.holeNames x := fun {names} h =>
    renameBy_freshen_eq_freshName h.nodup (fun y hy => hprime y ((h.mem_iff y).mp hy))
      ((h.mem_iff x).mpr hx)
  rw [hname h, hname h']

/-- The rules `g(#x, #x', #y) => f(#x, #y)` and `f(#y, #x) => h(#x, #y)`: both names of the second
have to be renamed, and `#x'` is taken. -/
theorem composeRulesVisiting_eq_shared :
    let A : Expr Unit :=
      rule (term "g" [var "x", var "x'", var "y"]) "=>" (term "f" [var "x", var "y"])
    let B : Expr Unit := rule (term "f" [var "y", var "x"]) "=>" (term "h" [var "x", var "y"])
    (∀ x ∈ B.holes, prime ∉ x.toList) ∧ B.VisitedIn ["x", "y"] ∧ B.VisitedIn ["y", "x"] ∧
      composeRulesVisiting ["x", "y"] A B = composeRulesVisiting ["y", "x"] A B := by
  intro A B
  have hprime : ∀ x ∈ B.holes, prime ∉ x.toList := by decide
  have h : B.VisitedIn ["x", "y"] := ⟨by decide, fun z => by simp [B]; tauto⟩
  have h' : B.VisitedIn ["y", "x"] := ⟨by decide, fun z => by simp [B]; tauto⟩
  exact ⟨hprime, h, h', composeRulesVisiting_eq_of_visitedIn hprime h h'⟩

end Expr

end RuleProver
