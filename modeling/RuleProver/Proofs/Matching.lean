import RuleProver.Functorial
import RuleProver.Proofs.GroundReduction
import RuleProver.Proofs.RuleApplication

/-!
# Matching

To unify an expression with a pattern of which it is an instance is to match it: the pattern has a
node wherever the expression has one, so that only the holes of the pattern are bound, and a hole
that occurs twice meets the same expression both times. Unification therefore succeeds, and what it
binds fills the pattern, and everything with no other holes, as the instance does
(`exists_unifier?_of_inst`).

An expression without holes unifies with a pattern in no other way. So a chain without holes takes
one more rule exactly when what it has reached is an instance of the left side of the rule, and it
then reaches the instance of the right side (`Chain.apply_of_inst`, `Chain.apply_of_not_inst`).

## Main definitions

* `Assignment.Follows` — an assignment binds holes to given values only
* `Chain.origin` — where a chain starts from

## Main results

* `Expr.exists_follows_of_inst`, `Expr.exists_unifier?_of_inst` — an instance unifies, and the
  assignment gives its values
* `Expr.exists_fill_iff` — instances by assignments and by values for all holes
* `Chain.apply_of_inst`, `Chain.apply_of_not_inst` — one more rule for a chain without holes
-/

namespace RuleProver

variable {α : Type}

namespace Assignment

variable {σ : Assignment α} {es : List (Equation α)} {φ : String → Expr Unit}

/-- Every hole is bound to its value, up to marks. -/
def Follows (σ : Assignment α) (φ : String → Expr Unit) : Prop := ∀ e ∈ σ, e.2.erase = φ e.1

theorem follows_append {τ : Assignment α} :
    Follows (σ ++ τ) φ ↔ σ.Follows φ ∧ τ.Follows φ :=
  List.forall_mem_append

/-- Equations that say the same of a hole wherever it occurs can be solved. -/
theorem exists_solve_of_follows (hσ : σ.Follows φ) (hes : Follows es φ) :
    ∃ τ, σ.solve es = some τ ∧ τ.Follows φ ∧ ∀ x ∈ σ.keys ++ keys es, x ∈ τ.keys := by
  induction es generalizing σ with
  | nil => exact ⟨σ, rfl, hσ, by simp [keys]⟩
  | cons e es ih =>
    obtain ⟨x, t⟩ := e
    obtain ⟨ht, hes⟩ := List.forall_mem_cons.mp hes
    rw [solve, bind]
    cases hx : σ.get? x with
    | none =>
      have hσ' : Follows (σ ++ [(x, t)]) φ :=
        follows_append.mpr ⟨hσ, List.forall_mem_singleton.mpr ht⟩
      obtain ⟨τ, hτ, hfollows, hkeys⟩ := ih hσ' hes
      refine ⟨τ, hτ, hfollows, fun y hy => hkeys y ?_⟩
      simpa [keys] using hy
    | some u =>
      have hmem := mem_of_get? hx
      have hsame : u.same t = true := by
        rw [Expr.same_iff, hσ _ hmem, ht]
      obtain ⟨τ, hτ, hfollows, hkeys⟩ := ih hσ hes
      dsimp only
      rw [hsame]
      refine ⟨τ, hτ, hfollows, fun y hy => hkeys y ?_⟩
      have hxkeys : x ∈ σ.keys := List.mem_map_of_mem hmem
      rcases List.mem_append.mp hy with hy | hy
      · exact List.mem_append_left _ hy
      · rcases List.mem_cons.mp hy with rfl | hy
        · exact List.mem_append_left _ hxkeys
        · exact List.mem_append_right _ hy

/-- Bound holes are filled with their values. -/
theorem Follows.erase_fill (hσ : σ.Follows φ) {q : Expr α} (hq : ∀ x ∈ q.holes, x ∈ σ.keys) :
    (q.fill σ).erase = q.inst φ := by
  rw [← Expr.inst_var, Expr.inst_fill]
  refine Expr.inst_congr fun x hx => ?_
  rw [andThen]
  cases hget : σ.get? x with
  | none => exact absurd (hq x hx) (get?_eq_none_iff.mp hget)
  | some u =>
    rw [Option.elim_some, Expr.inst_var]
    exact hσ _ (mem_of_get? hget)

end Assignment

namespace Expr

variable {φ : String → Expr Unit} {s : String} {m m' : α} {a l r t : Expr α}

/-! ## Matching an instance -/

mutual

/-- An instance of a pattern has an equation for every hole of the pattern, with its value. -/
theorem equations_of_inst : (t l : Expr α) → l.inst φ = t.erase →
    ∃ es : Assignment α, equations t l = some es ∧ es.Follows φ ∧ es.keys = l.holes
  | t, .hole m y, h => by
    rw [inst_hole] at h
    refine ⟨[(y, t)], by rw [equations], List.forall_mem_singleton.mpr h.symm, ?_⟩
    rw [holes_hole]
    rfl
  | .hole m x, .node m' k ls, h => by simp at h
  | .node m k ts, .node m' k' ls, h => by
    rw [inst_node, erase_node, node.injEq] at h
    obtain ⟨-, hk, hls⟩ := h
    have hlen : ts.length = ls.length := by simpa using (congrArg List.length hls).symm
    rw [equations, if_pos ⟨hk.symm, hlen⟩, holes_node]
    exact equationsAll_of_inst ts ls hls

/-- The list form of `equations_of_inst`. -/
theorem equationsAll_of_inst : (ts ls : List (Expr α)) → ls.map (inst φ) = ts.map erase →
    ∃ es : Assignment α, equationsAll ts ls = some es ∧ es.Follows φ ∧
      es.keys = ls.flatMap holes
  | [], [], _ => ⟨[], by simp [equationsAll], by simp [Assignment.Follows], rfl⟩
  | t :: ts, l :: ls, h => by
    rw [List.map_cons, List.map_cons, List.cons.injEq] at h
    obtain ⟨es, hes, hfollows, hkeys⟩ := equations_of_inst t l h.1
    obtain ⟨fs, hfs, hfollows', hkeys'⟩ := equationsAll_of_inst ts ls h.2
    refine ⟨es ++ fs, ?_, Assignment.follows_append.mpr ⟨hfollows, hfollows'⟩, ?_⟩
    · rw [equationsAll, hes, hfs]
      rfl
    · rw [List.flatMap_cons, ← hkeys, ← hkeys']
      exact List.map_append
  | [], _ :: _, h => by simp at h
  | _ :: _, [], h => by simp at h

end

/-- An instance unifies with its pattern: the assignment binds the holes of the pattern, and no
others, to their values. -/
theorem exists_follows_of_inst (h : l.inst φ = t.erase) :
    ∃ σ, t.unifier? l = some σ ∧ σ.Follows φ ∧ ∀ x, x ∈ σ.keys ↔ x ∈ l.holes := by
  obtain ⟨es, hes, hfollows, hkeys⟩ := equations_of_inst t l h
  have hnil : Assignment.Follows ([] : Assignment α) φ := by simp [Assignment.Follows]
  obtain ⟨σ, hσ, hσφ, hσkeys⟩ := Assignment.exists_solve_of_follows hnil hfollows
  refine ⟨σ, by rw [unifier?_eq, hes]; exact hσ, hσφ, fun x => ⟨fun hx => ?_, fun hx => ?_⟩⟩
  · obtain ⟨e, he, rfl⟩ := List.mem_map.mp hx
    rw [← hkeys]
    exact List.mem_map_of_mem ((mem_of_solve hσ e he).resolve_left List.not_mem_nil)
  · refine hσkeys x (List.mem_append_right _ ?_)
    rwa [hkeys]

/-- **An instance unifies with its pattern**, and the assignment fills whatever has only holes of
the pattern with the values of the instance. -/
theorem exists_unifier?_of_inst (h : l.inst φ = t.erase) :
    ∃ σ, t.unifier? l = some σ ∧
      ∀ q : Expr α, (∀ x ∈ q.holes, x ∈ l.holes) → (q.fill σ).erase = q.inst φ := by
  obtain ⟨σ, hσ, hσφ, hkeys⟩ := exists_follows_of_inst h
  exact ⟨σ, hσ, fun q hq => hσφ.erase_fill fun x hx => (hkeys x).mpr (hq x hx)⟩

/-- An expression without holes unifies with its patterns only. -/
theorem exists_inst_of_unifier? (ht : t.Ground) {σ : Assignment α} (h : t.unifier? l = some σ) :
    ∃ φ : String → Expr Unit, l.inst φ = t.erase := by
  obtain ⟨φ, hφ⟩ := exists_inst_eq_of_unifier? h (.inl ht)
  exact ⟨φ, by rw [← hφ, inst_of_ground ht]⟩

theorem inst_of_same_fill {σ : Assignment α} (h : (l.fill σ).same t = true) :
    l.inst (σ.andThen var) = t.erase := by
  rw [← inst_fill, inst_var, (same_iff _ _).mp h]

/-- An expression is a pattern filled by an assignment exactly when it is an instance of it. -/
theorem exists_fill_iff :
    (∃ σ : Assignment α, (l.fill σ).same t = true) ↔
      ∃ φ : String → Expr Unit, l.inst φ = t.erase := by
  constructor
  · rintro ⟨σ, hσ⟩
    exact ⟨_, inst_of_same_fill hσ⟩
  · rintro ⟨φ, hφ⟩
    obtain ⟨σ, -, hfill⟩ := exists_unifier?_of_inst hφ
    exact ⟨σ, by rw [same_iff, hfill l fun x hx => hx, hφ]⟩

end Expr

/-! ## One more rule for a chain -/

namespace Chain

open Functorials (reached)

variable {c : Chain} {s : String} {m : Note} {L R rule : Object} {φ : String → Expr Unit}

/-- The part of a chain that it starts from. -/
def origin (c : Chain) : Object :=
  match c.reduced with
  | .node _ (.rule _) [l, _] => l
  | t => t

/-- A chain that is no rule, or one under the symbol, is composed as the rule from its origin to
what it has reached. -/
theorem exists_asRule_eq (hs : c.symbol? = none ∨ c.symbol? = some s) :
    ∃ m, asRule s c.reduced = .node m (.rule s) [c.origin, reached c] := by
  by_cases hrule : ∃ m s' l r, c.reduced = .node m (.rule s') [l, r]
  · obtain ⟨m, s', l, r, heq⟩ := hrule
    obtain rfl : s' = s := by simpa [symbol?, heq] using hs
    exact ⟨m, by simp [asRule, origin, reached, heq]⟩
  · have hne : ∀ m s' l r, c.reduced ≠ .node m (.rule s') [l, r] := fun m s' l r heq =>
      hrule ⟨m, s', l, r, heq⟩
    have hasRule : asRule s c.reduced = c.reduced.identity s := by
      unfold asRule
      split
      · exact absurd ‹_› (hne _ _ _ _)
      · rfl
    have horigin : c.origin = c.reduced := by
      unfold origin
      split
      · exact absurd ‹_› (hne _ _ _ _)
      · rfl
    have hreached : reached c = c.reduced := by
      unfold reached
      split
      · exact absurd ‹_› (hne _ _ _ _)
      · rfl
    rw [hasRule, horigin, hreached]
    exact ⟨default, rfl⟩

theorem heads_asRule_subset (s : String) (t : Object) :
    (asRule s t).heads ⊆ .rule s :: t.heads := by
  unfold asRule
  split
  · exact List.subset_cons_self _ _
  · simp [Expr.identity]

theorem ground_asRule {t : Object} (ht : t.Ground) : (asRule s t).Ground := by
  unfold asRule
  split
  · exact ht
  · exact Expr.ground_pair.mpr ⟨ht, ht⟩

variable [HoleOrder] (hc : c.reduced.Ground) (hs : c.symbol? = none ∨ c.symbol? = some s)
  (hrule : rule.reduce? = some (.node m (.rule s) [L, R]))

include hs hrule in
theorem apply_of_composeRules_eq_none
    (h : (asRule s c.reduced).composeRules (.node m (.rule s) [L, R]) = none) :
    c.apply rule = .ok (.error (.about (.node m (.rule s) [L, R])
      ("Cannot apply [] to " ++ Object.text c.reduced))) := by
  have hreduce : rule.reduce = .ok (.node m (.rule s) [L, R]) := by rw [Expr.reduce, hrule]
  rcases hs with hs | hs <;>
    simp [apply, hreduce, hs, h, bind, Except.bind, pure, Except.pure]

include hs hrule in
theorem apply_of_composeRules_eq_some {a b : Object}
    (h : (asRule s c.reduced).composeRules (.node m (.rule s) [L, R]) = some (.rule a s b))
    (hreduced : (Expr.rule a s b).reduce? = some (.rule a s b)) :
    c.apply rule = .ok (.ok (⟨.rule a s b, c.extend s rule⟩,
      .about b "Applied rule, new term: []")) := by
  have hreduce : rule.reduce = .ok (.node m (.rule s) [L, R]) := by rw [Expr.reduce, hrule]
  have hreduce' : (Expr.rule a s b).reduce = .ok (.rule a s b) := by rw [Expr.reduce, hreduced]
  rcases hs with hs | hs <;>
    simp [apply, hreduce, hreduce', hs, h, bind, Except.bind, pure, Except.pure, Expr.right?]

include hc hs hrule

/-- A chain refuses a rule whose left side what it has reached is no instance of. -/
theorem apply_of_not_inst (h : ¬ ∃ φ : String → Expr Unit, L.inst φ = (reached c).erase) :
    ∃ r, c.apply rule = .ok (.error r) := by
  obtain ⟨m', hasRule⟩ := exists_asRule_eq hs
  have hground : (Expr.node m' (.rule s) [c.origin, reached c]).Ground := hasRule ▸ ground_asRule hc
  have hnone : (reached c).unifier? L = none := by
    by_contra hsome
    obtain ⟨σ, hσ⟩ := Option.ne_none_iff_exists'.mp hsome
    exact h (Expr.exists_inst_of_unifier? (Expr.ground_pair.mp hground).2 hσ)
  refine ⟨_, apply_of_composeRules_eq_none hs hrule ?_⟩
  rw [hasRule, Expr.composeRules_of_ground hground, hnone]
  rfl

/-- **A chain takes one more rule** when what it has reached is an instance of the left side, and
it then reaches the instance of the right side. -/
theorem apply_of_inst (hcomp : Head.comp ∉ c.reduced.heads)
    (hL : Head.comp ∉ L.heads) (hR : Head.comp ∉ R.heads) (hholes : ∀ x ∈ R.holes, x ∈ L.holes)
    (h : L.inst φ = (reached c).erase) :
    ∃ b : Object, b.erase = R.inst φ ∧
      c.apply rule = .ok (.ok (⟨.rule c.origin s b, c.extend s rule⟩,
        .about b "Applied rule, new term: []")) := by
  obtain ⟨m', hasRule⟩ := exists_asRule_eq hs
  have hground : (Expr.node m' (.rule s) [c.origin, reached c]).Ground := hasRule ▸ ground_asRule hc
  have hfree : Head.comp ∉ (Expr.node m' (.rule s) [c.origin, reached c]).heads := by
    rw [← hasRule]
    intro hmem
    rcases List.mem_cons.mp (heads_asRule_subset s c.reduced hmem) with h | h
    · cases h
    · exact hcomp h
  obtain ⟨horigin, hreached⟩ :
      Head.comp ∉ c.origin.heads ∧ Head.comp ∉ (reached c).heads := by
    simpa using hfree
  obtain ⟨σ, hσ, hfill⟩ := Expr.exists_unifier?_of_inst h
  have hright : Head.comp ∉ (R.fill σ).heads := by
    intro hmem
    rcases Expr.mem_heads_fill hσ hmem with h | h | h
    · exact hR h
    · exact hreached h
    · exact hL h
  have hreduce : (Expr.rule c.origin s (R.fill σ)).reduce? =
      some (.rule c.origin s (R.fill σ)) :=
    (Expr.reduced_of_compFree (by simp [horigin, hright])).reduce?
  refine ⟨R.fill σ, hfill R hholes, apply_of_composeRules_eq_some hs hrule ?_ hreduce⟩
  rw [hasRule, Expr.composeRules_of_ground hground, hσ]
  rfl

end Chain

end RuleProver
