import RuleProver.Composition
import RuleProver.Proofs.Instance

/-!
# Fresh names

Before two rules are composed, the holes of the second are renamed apart from those of the first.
A clashing name gets primes until it is new, and names are handled one after the other.

Whatever the order, the new names avoid those of the first rule (`renameBy_freshen`). That
different names stay different is another matter: a name without a clash keeps its name, and an
earlier name may by then have got the same one. This cannot happen when the names to be renamed
have no primes of their own, since the part of a new name before its primes is then the old name
(`renameBy_freshen_injOn`).
-/

namespace RuleProver

/-- The character that makes a name new. -/
def prime : Char := '\''

/-- `y` is `x` followed by primes. -/
def Primed (x y : String) : Prop := ∃ n, y.toList = x.toList ++ List.replicate n prime

theorem Primed.refl (x : String) : Primed x x := ⟨0, by simp⟩

theorem primed_append_prime {x y : String} (h : Primed (x ++ "'") y) : Primed x y := by
  obtain ⟨n, hn⟩ := h
  refine ⟨n + 1, ?_⟩
  rw [hn, String.toList_append, List.append_assoc, List.replicate_succ]
  rfl

/-- A name without primes is all that stands before the primes of a primed form of it. -/
theorem Primed.takeWhile {x y : String} (h : Primed x y) (hx : prime ∉ x.toList) :
    y.toList.takeWhile (· != prime) = x.toList := by
  obtain ⟨n, hn⟩ := h
  have hpos : ∀ c ∈ x.toList, (c != prime) = true := by
    intro c hc
    have hne : c ≠ prime := fun hcp => hx (hcp ▸ hc)
    simpa using hne
  have hprimes : (List.replicate n prime).takeWhile (· != prime) = [] := by
    cases n <;> simp [List.replicate_succ]
  rw [hn, List.takeWhile_append_of_pos hpos, hprimes, List.append_nil]

theorem Primed.unique {x y z : String} (hx : Primed x z) (hy : Primed y z)
    (hxp : prime ∉ x.toList) (hyp : prime ∉ y.toList) : x = y :=
  String.toList_injective ((hx.takeWhile hxp).symm.trans (hy.takeWhile hyp))

/-! ## One name -/

theorem freshName_not_mem (reserved : List String) (x : String) :
    freshName reserved x ∉ reserved := by
  fun_induction freshName reserved x with
  | case1 x hx ih => exact ih
  | case2 x hx => exact hx

theorem primed_freshName (reserved : List String) (x : String) :
    Primed x (freshName reserved x) := by
  fun_induction freshName reserved x with
  | case1 x hx ih => exact primed_append_prime ih
  | case2 x hx => exact Primed.refl x

/-! ## Many names -/

theorem lookup_freshen_of_not_mem {reserved names : List String} {x : String} (h : x ∉ names) :
    (freshen reserved names).lookup x = none := by
  induction names generalizing reserved with
  | nil => rfl
  | cons z names ih =>
    rw [List.mem_cons, not_or] at h
    rw [freshen]
    split
    · have hne : (x == z) = false := by simpa using h.1
      rw [List.lookup_cons, hne]
      exact ih h.2
    · exact ih h.2

/-- A renamed name is not reserved, and it is the old name followed by primes. -/
theorem renameBy_freshen (reserved : List String) {names : List String} {x : String}
    (h : x ∈ names) :
    renameBy (freshen reserved names) x ∉ reserved ∧
      Primed x (renameBy (freshen reserved names) x) := by
  induction names generalizing reserved with
  | nil => simp at h
  | cons z names ih =>
    rw [freshen]
    by_cases hz : z ∈ reserved
    · rw [if_pos hz, renameBy, List.lookup_cons]
      by_cases hxz : x = z
      · subst hxz
        rw [beq_self_eq_true]
        exact ⟨freshName_not_mem reserved x, primed_freshName reserved x⟩
      · have hne : (x == z) = false := by simpa using hxz
        rw [hne]
        have hx : x ∈ names := (List.mem_cons.mp h).resolve_left hxz
        obtain ⟨hfresh, hprimed⟩ := ih (freshName reserved z :: reserved) hx
        exact ⟨fun hmem => hfresh (List.mem_cons_of_mem _ hmem), hprimed⟩
    · rw [if_neg hz]
      by_cases hx : x ∈ names
      · exact ih reserved hx
      · -- the name is met for the last time here, and it stays
        have hxz : x = z := (List.mem_cons.mp h).resolve_right hx
        rw [renameBy, lookup_freshen_of_not_mem hx, Option.getD_none]
        exact ⟨hxz ▸ hz, Primed.refl x⟩

/-- **Names without primes stay apart.** -/
theorem renameBy_freshen_injOn {reserved names : List String} {x y : String} (hx : x ∈ names)
    (hy : y ∈ names) (hxp : prime ∉ x.toList) (hyp : prime ∉ y.toList)
    (h : renameBy (freshen reserved names) x = renameBy (freshen reserved names) y) : x = y := by
  have hprimed := (renameBy_freshen reserved hx).2
  rw [h] at hprimed
  exact hprimed.unique (renameBy_freshen reserved hy).2 hxp hyp

end RuleProver
