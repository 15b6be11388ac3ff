import RuleProver.Proofs.Instance
import Mathlib.Data.List.Nodup
import Mathlib.Data.List.Perm.Basic

/-!
# Unification as solving equations

Unifying two expressions does two things at once: it walks the expressions together, and it binds
the holes that it meets. Here the two are taken apart. `Expr.equations` walks, and collects an
equation between a hole and an expression wherever a hole stands on either side;
`Assignment.solve` goes through such equations and binds. `Expr.unifier?_eq` puts them together
again.

The values that solve the equations are exactly those under which the two expressions become the
same, and a successful run keeps exactly these solutions (`Expr.inst_eq_iff_of_unifier?`). So an
assignment that unification returns always describes the common instances. What it need not do is
produce them when it is applied once: that takes an assignment in *solved form*, in which no value
mentions a bound hole.

## Main results

* `Expr.inst_eq_iff_of_unifier?` — the solutions of the assignment are the common instances
* `Expr.perm_mentions` — every occurrence of a hole ends up in exactly one equation
* `Expr.unifier?_of_nodup` — without repeated holes the equations are the assignment, in solved form
-/

namespace RuleProver

variable {α : Type}

/-- An equation between a hole and an expression. -/
abbrev Equation (α : Type) := String × Expr α

/-- The values of the holes make both sides of every equation the same. -/
def Solves (θ : String → Expr Unit) (es : List (Equation α)) : Prop :=
  ∀ e ∈ es, θ e.1 = e.2.inst θ

@[simp] theorem solves_nil (θ : String → Expr Unit) : Solves θ ([] : List (Equation α)) := by
  intro e he
  simp at he

@[simp] theorem solves_cons {θ : String → Expr Unit} {e : Equation α} {es : List (Equation α)} :
    Solves θ (e :: es) ↔ θ e.1 = e.2.inst θ ∧ Solves θ es :=
  List.forall_mem_cons

@[simp] theorem solves_append {θ : String → Expr Unit} {es fs : List (Equation α)} :
    Solves θ (es ++ fs) ↔ Solves θ es ∧ Solves θ fs :=
  List.forall_mem_append

/-- The holes that equations mention, on either side, once for each occurrence. -/
def mentions (es : List (Equation α)) : List String := es.flatMap fun e => e.1 :: e.2.holes

@[simp] theorem mentions_cons (e : Equation α) (es : List (Equation α)) :
    mentions (e :: es) = e.1 :: e.2.holes ++ mentions es :=
  List.flatMap_cons

@[simp] theorem mentions_append (es fs : List (Equation α)) :
    mentions (es ++ fs) = mentions es ++ mentions fs :=
  List.flatMap_append

theorem mem_mentions_of_mem {e : Equation α} {es : List (Equation α)} (h : e ∈ es) :
    e.1 ∈ mentions es :=
  List.mem_flatMap.mpr ⟨e, h, List.mem_cons_self⟩

/-! ## Collecting equations -/

namespace Expr

mutual

/-- The equations that make two expressions the same. There are none when two heads clash. -/
def equations : Expr α → Expr α → Option (List (Equation α))
  | a, .hole _ y => some [(y, a)]
  | .hole _ x, .node m k bs => some [(x, .node m k bs)]
  | .node _ h as, .node _ k bs =>
    if h = k ∧ as.length = bs.length then equationsAll as bs else none

/-- The equations that make two lists of expressions the same, place by place. -/
def equationsAll : List (Expr α) → List (Expr α) → Option (List (Equation α))
  | a :: as, b :: bs =>
    (equations a b).bind fun es => (equationsAll as bs).map fun fs => es ++ fs
  | _, _ => some []

end

mutual

/-- The solutions of the equations are the values that make the two expressions the same. -/
theorem inst_eq_iff_equations (θ : String → Expr Unit) : (a b : Expr α) →
    (a.inst θ = b.inst θ ↔ ∃ es, equations a b = some es ∧ Solves θ es)
  | a, .hole m y => by
    rw [equations, inst_hole]
    constructor
    · intro h
      exact ⟨_, rfl, by simpa using h.symm⟩
    · rintro ⟨es, hes, hθ⟩
      obtain rfl := Option.some.inj hes
      exact (by simpa using hθ : θ y = a.inst θ).symm
  | .hole m x, .node m' k bs => by
    rw [equations, inst_hole]
    simp
  | .node m h as, .node m' k bs => by
    rw [equations, inst_node, inst_node, node.injEq]
    by_cases hk : h = k ∧ as.length = bs.length
    · rw [if_pos hk, instAll_eq_iff_equationsAll θ as bs hk.2]
      simp [hk.1]
    · rw [if_neg hk]
      constructor
      · rintro ⟨-, hh, hcs⟩
        exact absurd ⟨hh, by simpa using congrArg List.length hcs⟩ hk
      · rintro ⟨es, hes, -⟩
        simp at hes

/-- The list form of `inst_eq_iff_equations`. -/
theorem instAll_eq_iff_equationsAll (θ : String → Expr Unit) : (as bs : List (Expr α)) →
    as.length = bs.length → (as.map (inst θ) = bs.map (inst θ) ↔
      ∃ es, equationsAll as bs = some es ∧ Solves θ es)
  | [], [], _ => by simp [equationsAll]
  | a :: as, b :: bs, hlen => by
    have hlen' : as.length = bs.length := by simpa using hlen
    rw [List.map_cons, List.map_cons, List.cons.injEq, inst_eq_iff_equations θ a b,
      instAll_eq_iff_equationsAll θ as bs hlen', equationsAll]
    constructor
    · rintro ⟨⟨es, hes, hθ⟩, fs, hfs, hη⟩
      exact ⟨es ++ fs, by rw [hes, hfs]; rfl, solves_append.mpr ⟨hθ, hη⟩⟩
    · rintro ⟨gs, hgs, hθ⟩
      obtain ⟨es, hes, hgs⟩ := Option.bind_eq_some_iff.mp hgs
      obtain ⟨fs, hfs, rfl⟩ := Option.map_eq_some_iff.mp hgs
      obtain ⟨hθe, hθf⟩ := solves_append.mp hθ
      exact ⟨⟨es, hes, hθe⟩, fs, hfs, hθf⟩

end

mutual

/-- Every occurrence of a hole in the two expressions ends up in exactly one equation. -/
theorem perm_mentions : (a b : Expr α) → {es : List (Equation α)} → equations a b = some es →
    (mentions es).Perm (a.holes ++ b.holes)
  | a, .hole m y, es, h => by
    rw [equations] at h
    obtain rfl := Option.some.inj h
    simpa [mentions] using (List.perm_append_singleton y a.holes).symm
  | .hole m x, .node m' k bs, es, h => by
    rw [equations] at h
    obtain rfl := Option.some.inj h
    simp [mentions]
  | .node m h as, .node m' k bs, es, hes => by
    rw [equations] at hes
    split at hes
    · rename_i hk
      rw [holes_node, holes_node]
      exact perm_mentionsAll as bs hk.2 hes
    · simp at hes

/-- The list form of `perm_mentions`. -/
theorem perm_mentionsAll : (as bs : List (Expr α)) → as.length = bs.length →
    {es : List (Equation α)} → equationsAll as bs = some es →
    (mentions es).Perm (as.flatMap holes ++ bs.flatMap holes)
  | [], [], _, es, h => by
    rw [equationsAll] at h
    · obtain rfl := Option.some.inj h
      simp [mentions]
    · simp
  | a :: as, b :: bs, hlen, gs, h => by
    rw [equationsAll] at h
    obtain ⟨es, hes, h⟩ := Option.bind_eq_some_iff.mp h
    obtain ⟨fs, hfs, rfl⟩ := Option.map_eq_some_iff.mp h
    have hab := perm_mentions a b hes
    have habs := perm_mentionsAll as bs (by simpa using hlen) hfs
    rw [mentions_append, List.flatMap_cons, List.flatMap_cons]
    refine (hab.append habs).trans ?_
    simp only [List.append_assoc]
    refine List.Perm.append_left _ ?_
    rw [← List.append_assoc, ← List.append_assoc]
    exact List.perm_append_comm.append_right _

end

end Expr

/-! ## Solving equations -/

/-- Leaving out entries by their keys loses what was found under these keys, and nothing else. -/
theorem lookup_filter {β : Type} (p : String → Bool) (entries : List (String × β)) (x : String) :
    (entries.filter fun e => p e.1).lookup x = if p x then entries.lookup x else none := by
  induction entries with
  | nil => simp
  | cons e entries ih =>
    obtain ⟨y, t⟩ := e
    rw [List.lookup_cons, List.filter_cons]
    by_cases hxy : x = y
    · subst hxy
      by_cases hp : p x = true
      · simp [hp]
      · simpa [hp] using ih
    · have hne : (x == y) = false := by simpa using hxy
      rw [hne]
      by_cases hp : p y = true
      · rw [if_pos hp, List.lookup_cons, hne]
        exact ih
      · rw [if_neg hp]
        exact ih

namespace Assignment

/-- The holes that an assignment binds. -/
def keys (σ : Assignment α) : List String := σ.map (·.1)

theorem get?_eq_none_iff {σ : Assignment α} {x : String} : σ.get? x = none ↔ x ∉ σ.keys := by
  rw [get?, List.lookup_eq_none_iff, keys, List.mem_map]
  constructor
  · rintro h ⟨e, he, rfl⟩
    simpa using h e he
  · intro h e he
    simpa using fun hx => h ⟨e, he, hx.symm⟩

theorem mem_of_get? {σ : Assignment α} {x : String} {u : Expr α} (h : σ.get? x = some u) :
    (x, u) ∈ σ := by
  obtain ⟨before, after, rfl, -⟩ := List.lookup_eq_some_iff.mp h
  simp

theorem get?_of_mem {σ : Assignment α} {x : String} {u : Expr α} (hσ : σ.keys.Nodup)
    (h : (x, u) ∈ σ) : σ.get? x = some u := by
  obtain ⟨before, after, rfl⟩ := List.append_of_mem h
  refine List.lookup_eq_some_iff.mpr ⟨before, after, rfl, fun e he => ?_⟩
  rw [keys, List.map_append, List.map_cons] at hσ
  have hx : e.1 ≠ x := (List.nodup_append.mp hσ).2.2 e.1 (List.mem_map_of_mem he) x (by simp)
  simpa using hx.symm

/-- Goes through equations and binds the hole of each, or finds it bound to the same. -/
def solve (σ : Assignment α) : List (Equation α) → Option (Assignment α)
  | [] => some σ
  | (x, t) :: es =>
    match σ.bind x t with
    | (true, τ) => τ.solve es
    | (false, _) => none

theorem solve_append (σ : Assignment α) (es fs : List (Equation α)) :
    σ.solve (es ++ fs) = (σ.solve es).bind fun τ => τ.solve fs := by
  induction es generalizing σ with
  | nil => rfl
  | cons e es ih =>
    obtain ⟨x, t⟩ := e
    rw [List.cons_append, solve, solve]
    split
    · exact ih _
    · rfl

/-- Binding succeeds in two ways: the hole is bound to the same already, or it gets its value. -/
theorem bind_cases {σ τ : Assignment α} {x : String} {t : Expr α}
    (h : σ.bind x t = (true, τ)) :
    (∃ u, (x, u) ∈ σ ∧ u.same t = true ∧ τ = σ) ∨ (x ∉ σ.keys ∧ τ = σ ++ [(x, t)]) := by
  rw [bind] at h
  cases hx : σ.get? x with
  | none =>
    rw [hx] at h
    exact .inr ⟨get?_eq_none_iff.mp hx, (Prod.mk.inj h).2.symm⟩
  | some u =>
    rw [hx] at h
    exact .inl ⟨u, mem_of_get? hx, (Prod.mk.inj h).1, (Prod.mk.inj h).2.symm⟩

theorem solves_of_bind {σ τ : Assignment α} {x : String} {t : Expr α}
    (h : σ.bind x t = (true, τ)) (θ : String → Expr Unit) :
    Solves θ τ ↔ Solves θ σ ∧ θ x = t.inst θ := by
  obtain ⟨u, hu, hut, rfl⟩ | ⟨-, rfl⟩ := bind_cases h
  · refine ⟨fun hθ => ⟨hθ, ?_⟩, fun hθ => hθ.1⟩
    rw [← Expr.inst_eq_of_same hut θ]
    exact hθ (x, u) hu
  · simp

theorem nodup_keys_of_bind {σ τ : Assignment α} {x : String} {t : Expr α}
    (h : σ.bind x t = (true, τ)) (hσ : σ.keys.Nodup) : τ.keys.Nodup := by
  obtain ⟨u, -, -, rfl⟩ | ⟨hx, rfl⟩ := bind_cases h
  · exact hσ
  · rw [keys, List.map_append]
    refine List.nodup_append.mpr ⟨hσ, List.nodup_singleton x, ?_⟩
    rintro y hy z hz rfl
    obtain rfl := List.mem_singleton.mp hz
    exact hx hy

/-- Solving keeps exactly the solutions of the equations. -/
theorem solves_of_solve {σ τ : Assignment α} {es : List (Equation α)} (h : σ.solve es = some τ)
    (θ : String → Expr Unit) : Solves θ τ ↔ Solves θ σ ∧ Solves θ es := by
  induction es generalizing σ with
  | nil =>
    obtain rfl := Option.some.inj h
    simp
  | cons e es ih =>
    obtain ⟨x, t⟩ := e
    rw [solve] at h
    split at h
    · rename_i σ' hσ'
      rw [ih h, solves_of_bind hσ' θ, solves_cons, and_assoc]
    · simp at h

theorem nodup_keys_of_solve {σ τ : Assignment α} {es : List (Equation α)}
    (h : σ.solve es = some τ) (hσ : σ.keys.Nodup) : τ.keys.Nodup := by
  induction es generalizing σ with
  | nil =>
    obtain rfl := Option.some.inj h
    exact hσ
  | cons e es ih =>
    obtain ⟨x, t⟩ := e
    rw [solve] at h
    split at h
    · rename_i σ' hσ'
      exact ih h (nodup_keys_of_bind hσ' hσ)
    · simp at h

/-- Equations for distinct holes that are not bound yet are all added. -/
theorem solve_of_nodup {σ : Assignment α} {es : List (Equation α)}
    (h : (keys (σ ++ es)).Nodup) : σ.solve es = some (σ ++ es) := by
  induction es generalizing σ with
  | nil => rw [solve, List.append_nil]
  | cons e es ih =>
    obtain ⟨x, t⟩ := e
    have hx : σ.get? x = none := by
      rw [get?_eq_none_iff]
      intro hx
      rw [keys, List.map_append, List.map_cons] at h
      exact (List.nodup_append.mp h).2.2 x hx x (by simp) rfl
    have hes : (keys (σ ++ [(x, t)] ++ es)).Nodup := by
      rwa [List.append_assoc]
    rw [solve, bind, hx]
    simpa using ih hes

/-- No value mentions a bound hole, so that filling once is filling for good. -/
def SolvedForm (σ : Assignment α) : Prop := ∀ e ∈ σ, ∀ y ∈ e.2.holes, y ∉ σ.keys

/-- An assignment in solved form, applied once, solves its own equations. -/
theorem SolvedForm.solves {σ : Assignment α} (h : σ.SolvedForm) (hσ : σ.keys.Nodup)
    (θ : String → Expr Unit) : Solves (σ.andThen θ) σ := by
  rintro ⟨x, t⟩ he
  have hx : σ.andThen θ x = t.inst θ := by
    rw [andThen, get?_of_mem hσ he, Option.elim_some]
  rw [hx]
  refine Expr.inst_congr fun y hy => ?_
  rw [andThen, get?_eq_none_iff.mpr (h _ he y hy), Option.elim_none]

/-- Distinct mentions are distinct bound holes, none of which a value mentions. -/
theorem solvedForm_of_nodup {σ : Assignment α} (h : (mentions σ).Nodup) :
    σ.keys.Nodup ∧ σ.SolvedForm := by
  induction σ with
  | nil => exact ⟨List.nodup_nil, fun e he => by simp at he⟩
  | cons e σ ih =>
    rw [mentions_cons, List.cons_append, List.nodup_cons, List.nodup_append] at h
    obtain ⟨hfresh, -, hσ, hdisj⟩ := h
    obtain ⟨hkeys, hform⟩ := ih hσ
    have hsub : ∀ y ∈ keys σ, y ∈ mentions σ := by
      intro y hy
      obtain ⟨f, hf, rfl⟩ := List.mem_map.mp hy
      exact mem_mentions_of_mem hf
    have hval : ∀ f ∈ σ, ∀ y ∈ f.2.holes, y ∈ mentions σ := fun f hf y hy =>
      List.mem_flatMap.mpr ⟨f, hf, List.mem_cons_of_mem _ hy⟩
    rw [List.mem_append, not_or] at hfresh
    refine ⟨List.nodup_cons.mpr ⟨fun hx => hfresh.2 (hsub _ hx), hkeys⟩, ?_⟩
    intro f hf y hy hyk
    rcases List.mem_cons.mp hf with rfl | hf <;> rcases List.mem_cons.mp hyk with rfl | hyk
    · exact hfresh.1 hy
    · exact hdisj y hy y (hsub y hyk) rfl
    · exact hfresh.2 (hval f hf _ hy)
    · exact hform f hf y hy hyk

end Assignment

/-! ## Unification -/

namespace Expr

/-- The assignment of a unification that succeeds. -/
def outcome : Bool × Assignment α → Option (Assignment α)
  | (true, σ) => some σ
  | (false, _) => none

theorem outcome_bind (σ : Assignment α) (x : String) (t : Expr α) :
    outcome (σ.bind x t) = σ.solve [(x, t)] := by
  rw [Assignment.solve]
  cases h : σ.bind x t with
  | mk b τ => cases b <;> rfl

mutual

/-- Unifying is collecting the equations and solving them. -/
theorem outcome_unify : (a b : Expr α) → (σ : Assignment α) →
    outcome (unify a b σ) = (equations a b).bind σ.solve
  | a, .hole m y, σ => by
    rw [unify, equations, outcome_bind, Option.bind_some]
  | .hole m x, .node m' k bs, σ => by
    rw [unify, equations, outcome_bind, Option.bind_some]
  | .node m h as, .node m' k bs, σ => by
    rw [unify, equations]
    split
    · exact outcome_unifyAll as bs σ
    · rfl

/-- The list form of `outcome_unify`. -/
theorem outcome_unifyAll : (as bs : List (Expr α)) → (σ : Assignment α) →
    outcome (unifyAll as bs σ) = (equationsAll as bs).bind σ.solve
  | a :: as, b :: bs, σ => by
    rw [unifyAll, equationsAll]
    have ih := outcome_unify a b σ
    cases hab : equations a b with
    | none =>
      rw [hab, Option.bind_none] at ih
      split
      · rename_i τ hτ
        rw [hτ, outcome] at ih
        exact absurd ih (by simp)
      · rfl
    | some es =>
      -- what the first places bind is where the others go on from
      rw [hab, Option.bind_some] at ih
      rw [Option.bind_some, Option.bind_map]
      have happ : (σ.solve ∘ fun fs => es ++ fs) = fun fs => (σ.solve es).bind (·.solve fs) :=
        funext fun fs => Assignment.solve_append σ es fs
      rw [happ, ← ih]
      split
      · rename_i τ hτ
        rw [hτ, outcome_unifyAll as bs τ]
        rfl
      · rename_i τ hτ
        rw [hτ]
        cases equationsAll as bs <;> rfl
  | [], _, σ => by simp [unifyAll, equationsAll, outcome, Assignment.solve]
  | _ :: _, [], σ => by simp [unifyAll, equationsAll, outcome, Assignment.solve]

end

theorem unifier?_eq (a b : Expr α) :
    a.unifier? b = (equations a b).bind (Assignment.solve []) := by
  rw [← outcome_unify, unifier?]
  cases a.unify b [] with
  | mk ok σ => cases ok <;> rfl

theorem nodup_keys_of_unifier? {a b : Expr α} {σ : Assignment α} (h : a.unifier? b = some σ) :
    σ.keys.Nodup := by
  rw [unifier?_eq] at h
  obtain ⟨es, -, hes⟩ := Option.bind_eq_some_iff.mp h
  exact Assignment.nodup_keys_of_solve hes List.nodup_nil

/-- **Unification describes the common instances.** The values that make two expressions the same
are exactly the solutions of the assignment that unification returns. -/
theorem inst_eq_iff_of_unifier? {a b : Expr α} {σ : Assignment α} (h : a.unifier? b = some σ)
    (θ : String → Expr Unit) : a.inst θ = b.inst θ ↔ Solves θ σ := by
  rw [unifier?_eq] at h
  obtain ⟨es, hes, hσ⟩ := Option.bind_eq_some_iff.mp h
  rw [Assignment.solves_of_solve hσ θ, inst_eq_iff_equations]
  simp [hes]

/-- **Unification without repeated holes.** When every hole occurs once in the two expressions
together, unification fails only on a clash of heads, and what it returns is in solved form. -/
theorem unifier?_of_nodup {a b : Expr α} (h : (a.holes ++ b.holes).Nodup) :
    a.unifier? b = equations a b ∧ ∀ σ, a.unifier? b = some σ → σ.SolvedForm := by
  have hsolved : ∀ es : Assignment α, equations a b = some es → es.keys.Nodup ∧ es.SolvedForm :=
    fun es hes => Assignment.solvedForm_of_nodup ((perm_mentions a b hes).nodup_iff.mpr h)
  have heq : a.unifier? b = equations a b := by
    rw [unifier?_eq]
    cases hes : equations a b with
    | none => rfl
    | some es => exact Assignment.solve_of_nodup (hsolved es hes).1
  refine ⟨heq, fun σ hσ => ?_⟩
  rw [heq] at hσ
  exact (hsolved σ hσ).2

end Expr

end RuleProver
