import RuleProver.Proofs.Heads

/-!
# Where marks come from

Composing and reducing put expressions together from the parts that they are given, and only a rule
that is newly built has a mark of its own, the default one. So a property that the default mark has,
and all marks of the expressions that go in, is one of all marks that come out.

## Main definitions

* `Expr.parts` — the subexpressions of an expression
* `Expr.constants` — the names of the constants that occur
* `Expr.Marked` — all marks have a property

## Main results

* `Expr.induction_on_constants` — induction with a case for constants
* `Expr.Marked.fill` — filling an expression with a unifier
* `Expr.Marked.compose`, `Expr.Marked.reduce?` — composing and reducing
-/

namespace RuleProver

variable {α : Type}

namespace Expr

/-! ## Parts -/

mutual

/-- The subexpressions of an expression, the expression itself first. -/
def parts : Expr α → List (Expr α)
  | .hole m x => [.hole m x]
  | .node m h cs => .node m h cs :: partsAll cs

/-- The subexpressions of a list of expressions. -/
def partsAll : List (Expr α) → List (Expr α)
  | [] => []
  | c :: cs => parts c ++ partsAll cs

end

@[simp] theorem parts_hole (m : α) (x : String) : (Expr.hole m x).parts = [.hole m x] := by
  rw [parts]

@[simp] theorem parts_node (m : α) (h : Head) (cs : List (Expr α)) :
    (Expr.node m h cs).parts = .node m h cs :: cs.flatMap parts := by
  rw [parts]
  congr 1
  induction cs with
  | nil => rw [partsAll, List.flatMap_nil]
  | cons c cs ih => rw [partsAll, ih, List.flatMap_cons]

/-- The name of a constant. -/
def constant? : Expr α → Option String
  | .node _ (.term name) [] => some name
  | _ => none

/-- The names of the constants that occur in an expression, once for each occurrence. -/
def constants (t : Expr α) : List String := t.parts.filterMap constant?

@[simp] theorem constants_hole (m : α) (x : String) : (Expr.hole m x).constants = [] := by
  rw [constants, parts_hole]
  rfl

@[simp] theorem constants_const (m : α) (name : String) :
    (Expr.node m (.term name) []).constants = [name] := by
  rw [constants, parts_node]
  rfl

/-- A node that is no constant has the constants of its children. -/
theorem constants_node {m : α} {h : Head} {cs : List (Expr α)}
    (ht : (Expr.node m h cs).constant? = none) :
    (Expr.node m h cs).constants = cs.flatMap constants := by
  rw [constants, parts_node, List.filterMap_cons_none ht, List.filterMap_flatMap]
  rfl

theorem constant?_eq_some_iff {t : Expr α} {name : String} :
    t.constant? = some name ↔ ∃ m, t = .node m (.term name) [] := by
  unfold constant?
  split
  · simp
  · rename_i hno
    simp only [reduceCtorEq, false_iff, not_exists]
    exact fun m => hno m name

/-- Induction on an expression, with a case for constants and one for all other nodes. -/
@[elab_as_elim]
theorem induction_on_constants {motive : Expr α → Prop} (hole : ∀ m x, motive (.hole m x))
    (const : ∀ m name, motive (.node m (.term name) []))
    (node : ∀ m h cs, (Expr.node m h cs).constant? = none → (∀ c ∈ cs, motive c) →
      motive (.node m h cs)) (t : Expr α) : motive t := by
  induction t with
  | hole m x => exact hole m x
  | node m h cs ih =>
    cases hc : (Expr.node m h cs).constant? with
    | none => exact node m h cs hc ih
    | some name =>
      obtain ⟨_, heq⟩ := constant?_eq_some_iff.mp hc
      cases heq
      exact const m name

/-- Whether a node is a constant depends on its head and on the number of its children. -/
theorem constant?_node_eq_none_iff {m : α} {h : Head} {cs : List (Expr α)} :
    (Expr.node m h cs).constant? = none ↔ ∀ name, h = .term name → cs ≠ [] := by
  rw [Option.eq_none_iff_forall_ne_some]
  simp only [ne_eq, constant?_eq_some_iff, Expr.node.injEq, not_exists, not_and]
  exact ⟨fun hno name => hno name m rfl, fun hno name _ _ => hno name⟩

theorem constant?_eq_none_of_length {β : Type} {m : α} {m' : β} {h : Head} {cs : List (Expr α)}
    {us : List (Expr β)} (hlen : us.length = cs.length)
    (hc : (Expr.node m h cs).constant? = none) : (Expr.node m' h us).constant? = none := by
  rw [constant?_node_eq_none_iff] at hc ⊢
  rintro name hname rfl
  exact hc name hname (List.length_eq_zero_iff.mp hlen.symm)

theorem constants_erase (t : Expr α) : t.erase.constants = t.constants := by
  induction t using induction_on_constants with
  | hole m x => simp
  | const m name => simp
  | node m h cs hc ih =>
    rw [erase_node, constants_node hc, constants_node (constant?_eq_none_of_length (by simp) hc),
      List.flatMap_map]
    exact List.flatMap_congr ih

theorem constant?_erase (t : Expr α) : t.erase.constant? = t.constant? := by
  cases t with
  | hole m x => rfl
  | node m h cs =>
    rw [erase_node]
    cases h <;> cases cs <;> rfl

theorem constant?_eq_of_same {t u : Expr α} (h : t.same u = true) : t.constant? = u.constant? := by
  rw [← constant?_erase, (same_iff t u).mp h, constant?_erase]

theorem erase_withMark (t : Expr α) (m : α) : (t.withMark m).erase = t.erase := by
  cases t <;> rfl

theorem constants_withMark (t : Expr α) (m : α) : (t.withMark m).constants = t.constants := by
  rw [← constants_erase, erase_withMark, constants_erase]

/-! ## Marks -/

/-- All marks in an expression have a property. -/
def Marked (p : α → Prop) (t : Expr α) : Prop := ∀ u ∈ t.parts, p u.mark

variable {p : α → Prop}

@[simp] theorem marked_hole {m : α} {x : String} : (Expr.hole m x).Marked p ↔ p m := by
  simp [Marked, mark]

@[simp] theorem marked_node {m : α} {h : Head} {cs : List (Expr α)} :
    (Expr.node m h cs).Marked p ↔ p m ∧ ∀ c ∈ cs, c.Marked p := by
  simp only [Marked, parts_node, List.forall_mem_cons, List.mem_flatMap]
  exact and_congr Iff.rfl ⟨fun h c hc u hu => h u ⟨c, hc, hu⟩, fun h u ⟨c, hc, hu⟩ => h c hc u hu⟩

theorem marked_pair {m : α} {h : Head} {l r : Expr α} :
    (Expr.node m h [l, r]).Marked p ↔ p m ∧ l.Marked p ∧ r.Marked p := by
  simp

theorem Marked.root {t : Expr α} (ht : t.Marked p) : p t.mark := by
  cases t with
  | hole m x => exact marked_hole.mp ht
  | node m h cs => exact (marked_node.mp ht).1

theorem Marked.mono {q : α → Prop} (hpq : ∀ m, p m → q m) {t : Expr α} (ht : t.Marked p) :
    t.Marked q :=
  fun u hu => hpq _ (ht u hu)

/-- Only the mark at the root is exchanged. -/
theorem Marked.withMark {t : Expr α} (ht : t.Marked p) {m : α} (hm : p m) :
    (t.withMark m).Marked p := by
  cases t with
  | hole m' x => exact marked_hole.mpr hm
  | node m' h cs => exact marked_node.mpr ⟨hm, (marked_node.mp ht).2⟩

theorem Marked.rename {t : Expr α} (ht : t.Marked p) (ρ : String → String) :
    (t.rename ρ).Marked p := by
  induction t with
  | hole m x => simpa using ht
  | node m h cs ih =>
    rw [marked_node] at ht
    rw [rename_node, marked_node, List.forall_mem_map]
    exact ⟨ht.1, fun c hc => ih c hc (ht.2 c hc)⟩

theorem Marked.subst {t : Expr α} (ht : t.Marked p) {σ : String → Option (Expr α)}
    (hσ : ∀ x u, σ x = some u → u.Marked p) : (t.subst σ).Marked p := by
  induction t with
  | hole m x =>
    rw [subst_hole]
    cases hx : σ x with
    | none => exact ht
    | some u => exact hσ x u hx
  | node m h cs ih =>
    rw [marked_node] at ht
    rw [subst_node, marked_node, List.forall_mem_map]
    exact ⟨ht.1, fun c hc => ih c hc (ht.2 c hc)⟩

/-! ## Unifying -/

mutual

theorem marked_of_equations : (a b : Expr α) → {es : List (Equation α)} →
    equations a b = some es → a.Marked p → b.Marked p → ∀ e ∈ es, e.2.Marked p
  | a, .hole m y, es, hes, ha, _ => by
    rw [equations] at hes
    obtain rfl := Option.some.inj hes
    simpa using ha
  | .hole m x, .node m' k bs, es, hes, _, hb => by
    rw [equations] at hes
    obtain rfl := Option.some.inj hes
    simpa using hb
  | .node m k as, .node m' k' bs, es, hes, ha, hb => by
    rw [equations] at hes
    split at hes
    · exact marked_of_equationsAll as bs hes (marked_node.mp ha).2 (marked_node.mp hb).2
    · contradiction

theorem marked_of_equationsAll : (as bs : List (Expr α)) → {es : List (Equation α)} →
    equationsAll as bs = some es → (∀ a ∈ as, a.Marked p) → (∀ b ∈ bs, b.Marked p) →
    ∀ e ∈ es, e.2.Marked p
  | a :: as, b :: bs, es, hes, ha, hb => by
    rw [equationsAll] at hes
    obtain ⟨es₁, hes₁, hes⟩ := Option.bind_eq_some_iff.mp hes
    obtain ⟨es₂, hes₂, rfl⟩ := Option.map_eq_some_iff.mp hes
    obtain ⟨ha, has⟩ := List.forall_mem_cons.mp ha
    obtain ⟨hb, hbs⟩ := List.forall_mem_cons.mp hb
    exact List.forall_mem_append.mpr
      ⟨marked_of_equations a b hes₁ ha hb, marked_of_equationsAll as bs hes₂ has hbs⟩
  | [], bs, es, hes, _, _ => by
    rw [equationsAll] at hes
    · obtain rfl := Option.some.inj hes
      simp
    · simp
  | a :: as, [], es, hes, _, _ => by
    rw [equationsAll] at hes
    · obtain rfl := Option.some.inj hes
      simp
    · simp

end

/-- The values of a unifier are parts of what is unified. -/
theorem Marked.fill {a b t : Expr α} {σ : Assignment α} (ht : t.Marked p) (ha : a.Marked p)
    (hb : b.Marked p) (hσ : a.unifier? b = some σ) : (t.fill σ).Marked p := by
  rw [unifier?_eq] at hσ
  obtain ⟨es, hes, hσ⟩ := Option.bind_eq_some_iff.mp hσ
  refine ht.subst fun x u hu => ?_
  rcases mem_of_solve hσ (x, u) (Assignment.mem_of_get? hu) with he | he
  · cases he
  · exact marked_of_equations a b hes ha hb (x, u) he

/-! ## Composing and reducing -/

variable [Inhabited α]

theorem Marked.identity {t : Expr α} (ht : t.Marked p) (hp : p default) (s : String) :
    (t.identity s).Marked p :=
  marked_pair.mpr ⟨hp, ht, ht⟩

variable [HoleOrder]

theorem Marked.composeRules {a b c : Expr α} (ha : a.Marked p) (hb : b.Marked p) (hp : p default)
    (hc : a.composeRules b = some c) : c.Marked p := by
  obtain ⟨m, m', s, l, r, l', r', ρ, σ, rfl, rfl, hσ, rfl⟩ := exists_of_composeRules hc
  obtain ⟨-, hl, hr⟩ := marked_pair.mp ha
  obtain ⟨-, hl', hr'⟩ := marked_pair.mp hb
  have hrenamed := hl'.rename ρ
  exact marked_pair.mpr ⟨hp, hl.fill hr hrenamed hσ, (hr'.rename ρ).fill hr hrenamed hσ⟩

/-- **A composite has the marks of what is composed.** -/
theorem Marked.compose {a b c : Expr α} (ha : a.Marked p) (hb : b.Marked p) (hp : p default)
    (hc : a.compose b = some c) : c.Marked p := by
  unfold Expr.compose at hc
  split at hc
  · rename_i c' hc'
    cases hc
    exact ha.composeRules hb hp hc'
  · split at hc
    · obtain ⟨c', hc', hright⟩ := Option.bind_eq_some_iff.mp hc
      have hc'm := (ha.identity hp _).composeRules hb hp hc'
      unfold right? at hright
      split at hright
      · cases hright
        exact (marked_pair.mp hc'm).2.2
      · contradiction
    · contradiction

theorem Marked.contract {t : Expr α} (ht : t.Marked p) (hp : p default) :
    t.contract.Marked p := by
  unfold Expr.contract
  split
  · rename_i m l r
    obtain ⟨-, hl, hr⟩ := marked_pair.mp ht
    cases hc : l.compose r with
    | none => exact ht
    | some c => exact hl.compose hr hp hc
  · exact ht

theorem Marked.reduceOnce {t : Expr α} (ht : t.Marked p) (hp : p default) :
    t.reduceOnce.Marked p := by
  induction t with
  | hole m x =>
    rw [reduceOnce_hole]
    exact ht
  | node m h cs ih =>
    rw [marked_node] at ht
    rw [reduceOnce_node]
    refine Marked.contract (marked_node.mpr ⟨ht.1, ?_⟩) hp
    rw [reducedChildren]
    split
    · exact ht.2
    · rw [List.forall_mem_map]
      exact fun c hc => ih c hc (ht.2 c hc)

/-- **Reducing hands marks on.** -/
theorem Marked.reduce? {t u : Expr α} (ht : t.Marked p) (hp : p default)
    (h : t.reduce? = some u) : u.Marked p := by
  have hwithin : ∀ limit (t : Expr α), t.Marked p → t.reduceWithin limit = some u → u.Marked p := by
    intro limit
    induction limit with
    | zero =>
      intro t _ h
      contradiction
    | succ limit ih =>
      intro t ht h
      rw [reduceWithin] at h
      split at h
      · cases h
        exact ht
      · exact ih t.reduceOnce (ht.reduceOnce hp) h
  exact hwithin stepLimit t ht h

end Expr

end RuleProver
