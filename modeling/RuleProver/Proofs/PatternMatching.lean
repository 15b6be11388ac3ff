import RuleProver.Proofs.Matching

/-!
# Matching every child on its own

Matching an expression against a pattern should succeed exactly when the holes of the pattern can
be filled so that it becomes the expression, and return what fills them. It takes two things for an
expression to be such an instance. It must *fit* the pattern, which means that it has a node
wherever the pattern has one, with the same head and as many children. And the parts that a hole
*meets*, one for each of its occurrences, must be the same.

Every child is matched on its own, and of two parts for one hole the later one stays. So matching
only looks at the first of the two conditions (`exists_matchPattern_iff`), and it returns one of the
parts that a hole meets without a look at the others (`records_of_matchPattern`). What it returns
fills the pattern to the expression exactly when the second condition holds (`matchPattern_exact`).
A pattern that repeats no hole cannot break it. The pattern `f(#x, #x)` does, for `f(a, b)`
(`matchPattern_forgets`).

## Main definitions

* `Expr.Fits` — the expression has the nodes of the pattern
* `Expr.Meets` — a hole of the pattern stands where the expression has a given part
* `Expr.MeetsAlike` — all parts that a hole meets are the same
* `Assignment.Records` — an assignment takes one of its parts for every hole

## Main results

* `Expr.inst_eq_erase_iff` — instances are the expressions that fit, with the values of the holes
* `Expr.exists_matchPattern_iff`, `Expr.records_of_matchPattern` — when matching succeeds, and what
  it returns
* `Expr.matchPattern_exact` — when matching is right
-/

namespace RuleProver

variable {α : Type}

/-! ## Assignments that take one part for every hole -/

namespace Assignment

variable {σ τ : Assignment α} {P Q : String → Expr α → Prop}

/-- Of two bindings for a hole the later one stays. -/
theorem get?_override (σ τ : Assignment α) (x : String) :
    (σ.override τ).get? x = (τ.get? x).or (σ.get? x) := by
  rw [override, get?, List.lookup_append, lookup_filter fun y => (τ.get? y).isNone]
  change (if (τ.get? x).isNone then σ.get? x else none).or (τ.get? x) = _
  cases τ.get? x <;> simp

/-- Every hole is bound to one of the expressions that it meets, if it meets any. -/
structure Records (σ : Assignment α) (meets : String → Expr α → Prop) : Prop where
  /-- A hole is bound to an expression that it meets. -/
  met : ∀ x u, σ.get? x = some u → meets x u
  /-- A hole that meets an expression is bound. -/
  bound : ∀ x u, meets x u → ∃ v, σ.get? x = some v

theorem records_nil : Records ([] : Assignment α) fun _ _ => False where
  met x u h := by cases h
  bound x u h := h.elim

theorem Records.override (hσ : σ.Records P) (hτ : τ.Records Q) :
    (σ.override τ).Records fun x u => P x u ∨ Q x u where
  met x u h := by
    rw [get?_override, Option.or_eq_some_iff] at h
    rcases h with h | ⟨-, h⟩
    · exact .inr (hτ.met x u h)
    · exact .inl (hσ.met x u h)
  bound x u h := by
    rw [get?_override]
    cases hx : τ.get? x with
    | some v => exact ⟨v, rfl⟩
    | none =>
      refine hσ.bound x u (h.resolve_right fun hQ => ?_)
      obtain ⟨v, hv⟩ := hτ.bound x u hQ
      rw [hx] at hv
      cases hv

theorem Records.congr (hσ : σ.Records P) (h : ∀ x u, P x u ↔ Q x u) : σ.Records Q where
  met x u hx := (h x u).mp (hσ.met x u hx)
  bound x u hx := hσ.bound x u ((h x u).mpr hx)

end Assignment

namespace Expr

/-! ## What a pattern asks of an expression -/

/-- Wherever the pattern `b` has a node, `a` has a node with the same head and as many children. -/
def Fits (a b : Expr α) : Prop :=
  ∀ path m h bs, b.at? path = some (.node m h bs) →
    ∃ m' as, a.at? path = some (.node m' h as) ∧ as.length = bs.length

/-- The hole `#x` of the pattern `b` stands where `a` has the part `u`. -/
def Meets (a b : Expr α) (x : String) (u : Expr α) : Prop :=
  ∃ path m, b.at? path = some (.hole m x) ∧ a.at? path = some u

/-- All parts of `a` that a hole of the pattern `b` meets are the same. -/
def MeetsAlike (a b : Expr α) : Prop :=
  ∀ x u v, a.Meets b x u → a.Meets b x v → u.same v = true

variable {a b : Expr α} {m m' : α} {h k : Head} {as bs : List (Expr α)} {x : String} {u v : Expr α}

theorem mem_zip_iff {p : Expr α × Expr α} :
    p ∈ as.zip bs ↔ ∃ i : Nat, as[i]? = some p.1 ∧ bs[i]? = some p.2 := by
  rw [List.mem_iff_getElem?]
  exact exists_congr fun i => List.getElem?_zip_eq_some

theorem fits_hole (a : Expr α) (m : α) (x : String) : a.Fits (.hole m x) := by
  intro path m' h bs hpath
  cases (at?_hole_eq_some.mp hpath).2

theorem not_hole_fits_node : ¬ (hole m x).Fits (.node m' h bs) := by
  intro hfits
  obtain ⟨m'', as, has, -⟩ := hfits [] m' h bs rfl
  cases has

/-- A node fits a node with the same head and as many children, if the children fit. -/
theorem fits_node : (node m h as).Fits (.node m' k bs) ↔
    (h = k ∧ as.length = bs.length) ∧ ∀ p ∈ as.zip bs, p.1.Fits p.2 := by
  constructor
  · intro hfits
    obtain ⟨m'', as', has, hlen⟩ := hfits [] m' k bs rfl
    cases has
    refine ⟨⟨rfl, hlen⟩, fun p hp path m₁ h₁ cs hpath => ?_⟩
    obtain ⟨i, hai, hbi⟩ := mem_zip_iff.mp hp
    have hchild := hfits (i :: path) m₁ h₁ cs (by rw [at?_node_cons, hbi]; exact hpath)
    rwa [at?_node_cons, hai] at hchild
  · rintro ⟨⟨rfl, hlen⟩, hchildren⟩ path m₁ h₁ cs hpath
    cases path with
    | nil =>
      cases hpath
      exact ⟨m, as, rfl, hlen⟩
    | cons i path =>
      rw [at?_node_cons] at hpath ⊢
      obtain ⟨b, hb, hpath⟩ := Option.bind_eq_some_iff.mp hpath
      have hi : i < as.length := hlen ▸ (List.getElem?_eq_some_iff.mp hb).1
      have ha : as[i]? = some as[i] := List.getElem?_eq_getElem hi
      rw [ha]
      exact hchildren (as[i], b) (mem_zip_iff.mpr ⟨i, ha, hb⟩) path m₁ h₁ cs hpath

theorem meets_hole {y : String} : a.Meets (.hole m y) x u ↔ x = y ∧ u = a := by
  constructor
  · rintro ⟨path, m', hhole, hu⟩
    obtain ⟨rfl, heq⟩ := at?_hole_eq_some.mp hhole
    cases heq
    exact ⟨rfl, (Option.some.inj hu).symm⟩
  · rintro ⟨rfl, rfl⟩
    exact ⟨[], m, rfl, rfl⟩

/-- A hole has no part that a hole inside a node could meet. -/
theorem not_hole_meets_node {y : String} : ¬ (hole m y).Meets (.node m' h bs) x u := by
  rintro ⟨path, m₁, hhole, hpath⟩
  obtain ⟨rfl, -⟩ := at?_hole_eq_some.mp hpath
  cases hhole

/-- A hole of a node meets what it meets in one of the children. -/
theorem meets_node : (node m h as).Meets (.node m' k bs) x u ↔
    ∃ p ∈ as.zip bs, p.1.Meets p.2 x u := by
  constructor
  · rintro ⟨path, m₁, hhole, hu⟩
    cases path with
    | nil => cases hhole
    | cons i path =>
      rw [at?_node_cons] at hhole hu
      obtain ⟨b, hb, hhole⟩ := Option.bind_eq_some_iff.mp hhole
      obtain ⟨a, ha, hu⟩ := Option.bind_eq_some_iff.mp hu
      exact ⟨(a, b), mem_zip_iff.mpr ⟨i, ha, hb⟩, path, m₁, hhole, hu⟩
  · rintro ⟨p, hp, path, m₁, hhole, hu⟩
    obtain ⟨i, ha, hb⟩ := mem_zip_iff.mp hp
    refine ⟨i :: path, m₁, ?_, ?_⟩
    · rw [at?_node_cons, hb]
      exact hhole
    · rw [at?_node_cons, ha]
      exact hu

/-! ## Instances -/

/-- Lists of equal length have equal images when they do so place by place. -/
theorem map_eq_map_iff_zip {β γ δ : Type} {f : β → δ} {g : γ → δ} {as : List β} {bs : List γ}
    (hlen : as.length = bs.length) :
    bs.map g = as.map f ↔ ∀ p ∈ as.zip bs, g p.2 = f p.1 := by
  induction as generalizing bs with
  | nil =>
    obtain rfl := List.eq_nil_of_length_eq_zero hlen.symm
    simp
  | cons a as ih =>
    cases bs with
    | nil => simp at hlen
    | cons b bs =>
      have htail : as.length = bs.length := by simpa using hlen
      rw [List.map_cons, List.map_cons, List.cons.injEq, ih htail, List.zip_cons_cons,
        List.forall_mem_cons]

/-- **Instances of a pattern** are the expressions that fit it and in which every hole meets its
value. -/
theorem inst_eq_erase_iff {φ : String → Expr Unit} :
    b.inst φ = a.erase ↔ a.Fits b ∧ ∀ x u, a.Meets b x u → φ x = u.erase := by
  induction b generalizing a with
  | hole m y =>
    rw [inst_hole]
    constructor
    · intro hφ
      refine ⟨fits_hole a m y, fun x u hu => ?_⟩
      obtain ⟨rfl, rfl⟩ := meets_hole.mp hu
      exact hφ
    · rintro ⟨-, hφ⟩
      exact hφ y a (meets_hole.mpr ⟨rfl, rfl⟩)
  | node m k bs ih =>
    cases a with
    | hole m' x =>
      refine ⟨fun hφ => ?_, fun hφ => absurd hφ.1 not_hole_fits_node⟩
      rw [inst_node, erase_hole] at hφ
      cases hφ
    | node m' h as =>
      have hchild : ∀ p ∈ as.zip bs, p.2.inst φ = p.1.erase ↔
          p.1.Fits p.2 ∧ ∀ x u, p.1.Meets p.2 x u → φ x = u.erase :=
        fun p hp => ih p.2 (List.of_mem_zip hp).2
      rw [inst_node, erase_node, node.injEq, fits_node]
      constructor
      · rintro ⟨-, rfl, hmap⟩
        have hlen : as.length = bs.length := by simpa using (congrArg List.length hmap).symm
        have hall := (map_eq_map_iff_zip hlen).mp hmap
        refine ⟨⟨⟨rfl, hlen⟩, fun p hp => ((hchild p hp).mp (hall p hp)).1⟩, fun x u hu => ?_⟩
        obtain ⟨p, hp, hu⟩ := meets_node.mp hu
        exact ((hchild p hp).mp (hall p hp)).2 x u hu
      · rintro ⟨⟨⟨rfl, hlen⟩, hfits⟩, hφ⟩
        refine ⟨rfl, rfl, (map_eq_map_iff_zip hlen).mpr fun p hp => (hchild p hp).mpr ?_⟩
        exact ⟨hfits p hp, fun x u hu => hφ x u (meets_node.mpr ⟨p, hp, hu⟩)⟩

/-- Filling a pattern with an assignment is taking an instance of it. -/
theorem same_fill_iff {σ : Assignment α} :
    (b.fill σ).same a = true ↔ a.Fits b ∧ ∀ x u, a.Meets b x u → σ.andThen var x = u.erase := by
  rw [same_iff, ← inst_var (b.fill σ), inst_fill, inst_eq_erase_iff]

/-! ## What matching does -/

mutual

/-- **Matching succeeds** exactly for the expressions that fit the pattern. -/
theorem exists_matchPattern_iff : (a b : Expr α) →
    ((∃ σ, a.matchPattern b = some σ) ↔ a.Fits b)
  | a, .hole m y => by
    rw [matchPattern]
    exact ⟨fun _ => fits_hole a m y, fun _ => ⟨_, rfl⟩⟩
  | .hole m x, .node m' k bs => by
    rw [matchPattern]
    refine ⟨?_, fun hfits => absurd hfits not_hole_fits_node⟩
    rintro ⟨σ, hσ⟩
    cases hσ
  | .node m h as, .node m' k bs => by
    rw [matchPattern, fits_node, ← exists_matchPatterns_iff as bs []]
    by_cases hk : h = k ∧ as.length = bs.length
    · rw [if_pos hk]
      exact ⟨fun hσ => ⟨hk, hσ⟩, fun hσ => hσ.2⟩
    · rw [if_neg hk]
      refine ⟨?_, fun hσ => absurd hσ.1 hk⟩
      rintro ⟨σ, hσ⟩
      cases hσ

/-- The list form of `exists_matchPattern_iff`. -/
theorem exists_matchPatterns_iff : (as bs : List (Expr α)) → (σ : Assignment α) →
    ((∃ τ, matchPatterns as bs σ = some τ) ↔ ∀ p ∈ as.zip bs, p.1.Fits p.2)
  | a :: as, b :: bs, σ => by
    rw [matchPatterns, List.zip_cons_cons, List.forall_mem_cons, ← exists_matchPattern_iff a b]
    cases a.matchPattern b with
    | none => simp
    | some τ =>
      refine (exists_matchPatterns_iff as bs (σ.override τ)).trans ?_
      exact ⟨fun hall => ⟨⟨τ, rfl⟩, hall⟩, fun hall => hall.2⟩
  | [], bs, σ => by simp [matchPatterns]
  | a :: as, [], σ => by simp [matchPatterns]

end

mutual

/-- **What matching returns** takes for every hole of the pattern one of the parts that it meets. -/
theorem records_of_matchPattern : (a b : Expr α) → {σ : Assignment α} →
    a.matchPattern b = some σ → σ.Records (a.Meets b)
  | a, .hole m y, σ, hσ => by
    rw [matchPattern] at hσ
    obtain rfl := Option.some.inj hσ
    constructor
    · intro x u hu
      obtain ⟨rfl, rfl⟩ : x = y ∧ u = a := by
        simpa using Assignment.mem_of_get? hu
      exact meets_hole.mpr ⟨rfl, rfl⟩
    · intro x u hu
      obtain ⟨rfl, rfl⟩ := meets_hole.mp hu
      exact ⟨u, by simp [Assignment.get?]⟩
  | .hole m x, .node m' k bs, σ, hσ => by
    rw [matchPattern] at hσ
    cases hσ
  | .node m h as, .node m' k bs, σ, hσ => by
    rw [matchPattern] at hσ
    by_cases hk : h = k ∧ as.length = bs.length
    · rw [if_pos hk] at hσ
      refine (records_of_matchPatterns as bs Assignment.records_nil hσ).congr fun x u => ?_
      rw [meets_node, false_or]
    · rw [if_neg hk] at hσ
      cases hσ

/-- The list form of `records_of_matchPattern`, with what is bound before. -/
theorem records_of_matchPatterns : (as bs : List (Expr α)) → {σ τ : Assignment α} →
    {P : String → Expr α → Prop} → σ.Records P → matchPatterns as bs σ = some τ →
    τ.Records fun x u => P x u ∨ ∃ p ∈ as.zip bs, p.1.Meets p.2 x u
  | a :: as, b :: bs, σ, τ, P, hP, hτ => by
    rw [matchPatterns] at hτ
    cases hfirst : a.matchPattern b with
    | none =>
      rw [hfirst] at hτ
      cases hτ
    | some ρ =>
      rw [hfirst] at hτ
      have hboth := hP.override (records_of_matchPattern a b hfirst)
      refine (records_of_matchPatterns as bs hboth hτ).congr fun x u => ?_
      rw [List.zip_cons_cons, List.exists_mem_cons_iff, or_assoc]
  | [], bs, σ, τ, P, hP, hτ => by
    obtain rfl : σ = τ := by simpa [matchPatterns] using hτ
    exact hP.congr fun x u => by simp
  | a :: as, [], σ, τ, P, hP, hτ => by
    obtain rfl : σ = τ := by simpa [matchPatterns] using hτ
    exact hP.congr fun x u => by simp

end

/-! ## Patterns that repeat no hole -/

theorem mem_holes_of_at? {path : List Nat} (h : b.at? path = some (.hole m x)) : x ∈ b.holes := by
  induction path generalizing b with
  | nil =>
    obtain rfl := Option.some.inj h
    rw [holes_hole]
    exact List.mem_singleton_self x
  | cons i path ih =>
    cases b with
    | hole m' y =>
      rw [at?_hole_cons] at h
      cases h
    | node m' k bs =>
      rw [at?_node_cons] at h
      obtain ⟨c, hc, h⟩ := Option.bind_eq_some_iff.mp h
      rw [holes_node]
      exact List.mem_flatMap.mpr ⟨c, List.mem_of_getElem? hc, ih h⟩

/-- A hole that occurs in two children occurs twice. -/
theorem index_unique (hbs : (bs.flatMap holes).Nodup) {i j : Nat} {c d : Expr α}
    (hc : bs[i]? = some c) (hd : bs[j]? = some d) (hxc : x ∈ c.holes) (hxd : x ∈ d.holes) :
    i = j := by
  have hdisjoint := List.pairwise_iff_getElem.mp (List.nodup_flatMap.mp hbs).2
  obtain ⟨hi, rfl⟩ := List.getElem?_eq_some_iff.mp hc
  obtain ⟨hj, rfl⟩ := List.getElem?_eq_some_iff.mp hd
  rcases Nat.lt_trichotomy i j with hlt | heq | hgt
  · exact absurd hxd (hdisjoint i j hi hj hlt hxc)
  · exact heq
  · exact absurd hxc (hdisjoint j i hj hi hgt hxd)

/-- A hole that is not repeated is reached by one path only. -/
theorem path_unique (hb : b.holes.Nodup) {p q : List Nat} (hp : b.at? p = some (.hole m x))
    (hq : b.at? q = some (.hole m' x)) : p = q := by
  induction b generalizing p q with
  | hole m₁ y =>
    obtain ⟨rfl, -⟩ := at?_hole_eq_some.mp hp
    obtain ⟨rfl, -⟩ := at?_hole_eq_some.mp hq
    rfl
  | node m₁ k bs ih =>
    rw [holes_node] at hb
    cases p with
    | nil => cases hp
    | cons i p =>
      cases q with
      | nil => cases hq
      | cons j q =>
        rw [at?_node_cons] at hp hq
        obtain ⟨c, hc, hp⟩ := Option.bind_eq_some_iff.mp hp
        obtain ⟨d, hd, hq⟩ := Option.bind_eq_some_iff.mp hq
        obtain rfl := index_unique hb hc hd (mem_holes_of_at? hp) (mem_holes_of_at? hq)
        obtain rfl : c = d := Option.some.inj (hc.symm.trans hd)
        have hmem := List.mem_of_getElem? hc
        rw [ih c hmem ((List.nodup_flatMap.mp hb).1 c hmem) hp hq]

theorem meetsAlike_of_nodup (hb : b.holes.Nodup) : a.MeetsAlike b := by
  rintro x u v ⟨p, m, hp, hu⟩ ⟨q, m', hq, hv⟩
  obtain rfl := path_unique hb hp hq
  obtain rfl : u = v := Option.some.inj (hu.symm.trans hv)
  exact same_refl u

/-! ## When matching is right -/

/-- What matching returns fills the pattern to the expression exactly when every hole meets the same
part wherever it occurs. -/
theorem same_fill_iff_meetsAlike {σ : Assignment α} (hσ : a.matchPattern b = some σ) :
    (b.fill σ).same a = true ↔ a.MeetsAlike b := by
  have hrecords := records_of_matchPattern a b hσ
  have hvalue : ∀ {x v}, σ.get? x = some v → σ.andThen var x = v.erase := by
    intro x v hv
    rw [Assignment.andThen, hv, Option.elim_some, inst_var]
  rw [same_fill_iff]
  constructor
  · rintro ⟨-, hmeets⟩ x u v hu hv
    rw [same_iff, ← hmeets x u hu, ← hmeets x v hv]
  · intro halike
    refine ⟨(exists_matchPattern_iff a b).mp ⟨σ, hσ⟩, fun x u hu => ?_⟩
    obtain ⟨v, hv⟩ := hrecords.bound x u hu
    rw [hvalue hv]
    exact (same_iff v u).mp (halike x v u (hrecords.met x v hv) hu)

/-- **When matching is right.** Matching succeeds exactly for the expressions that fit the pattern,
and the instances of the pattern are those among them in which every hole meets the same part
wherever it occurs. What matching returns fills the pattern to the expression in this case and in
no other. The case is met by every pattern that repeats no hole. -/
theorem matchPattern_exact (a b : Expr α) :
    ((∃ σ, a.matchPattern b = some σ) ↔ a.Fits b) ∧
      ((∃ τ : Assignment α, (b.fill τ).same a = true) ↔ a.Fits b ∧ a.MeetsAlike b) ∧
      (∀ σ, a.matchPattern b = some σ → ((b.fill σ).same a = true ↔ a.MeetsAlike b)) ∧
      (b.holes.Nodup → a.MeetsAlike b) := by
  refine ⟨exists_matchPattern_iff a b, ⟨?_, ?_⟩, fun σ => same_fill_iff_meetsAlike,
    meetsAlike_of_nodup⟩
  · rintro ⟨τ, hτ⟩
    obtain ⟨hfits, hmeets⟩ := same_fill_iff.mp hτ
    refine ⟨hfits, fun x u v hu hv => ?_⟩
    rw [same_iff, ← hmeets x u hu, ← hmeets x v hv]
  · rintro ⟨hfits, halike⟩
    obtain ⟨σ, hσ⟩ := (exists_matchPattern_iff a b).mpr hfits
    exact ⟨σ, (same_fill_iff_meetsAlike hσ).mpr halike⟩

/-- The hole of `f(#x, #x)` meets `g(a)` twice in `f(g(a), g(a))`. -/
theorem meetsAlike_repeated_hole :
    let a : Expr Unit := term "f" [term "g" [const "a"], term "g" [const "a"]]
    let b : Expr Unit := term "f" [var "x", var "x"]
    let σ : Assignment Unit := [("x", term "g" [const "a"])]
    a.matchPattern b = some σ ∧ (b.fill σ).same a = true ∧ a.MeetsAlike b := by
  intro a b σ
  have hσ : a.matchPattern b = some σ := rfl
  have hfill : (b.fill σ).same a = true := rfl
  exact ⟨hσ, hfill, ((matchPattern_exact a b).2.2.1 σ hσ).mp hfill⟩

/-- The hole of `f(#x, #x)` meets `a` and `b` in `f(a, b)`. Matching forgets the first and returns
the second, which gives `f(b, b)`; nothing fills the pattern to the expression. -/
theorem matchPattern_forgets :
    let a : Expr Unit := term "f" [const "a", const "b"]
    let b : Expr Unit := term "f" [var "x", var "x"]
    let σ : Assignment Unit := [("x", const "b")]
    a.matchPattern b = some σ ∧ (b.fill σ).same a = false ∧
      ¬ ∃ τ : Assignment Unit, (b.fill τ).same a = true := by
  intro a b σ
  refine ⟨rfl, rfl, ?_⟩
  rintro ⟨τ, hτ⟩
  obtain ⟨-, hmeets⟩ := same_fill_iff.mp hτ
  have hfirst := hmeets "x" (const "a") ⟨[0], (), rfl, rfl⟩
  have hsecond := hmeets "x" (const "b") ⟨[1], (), rfl, rfl⟩
  rw [hfirst] at hsecond
  exact absurd hsecond (by decide)

end Expr

end RuleProver
