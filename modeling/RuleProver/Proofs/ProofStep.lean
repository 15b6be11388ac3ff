import RuleProver.Proofs.ProofOutline

/-!
# Steps of a proof

A step of a backward proof puts an object in place of the goal in focus. The tree stays an outline
as long as the object is one where the goal stands, so for each step it is enough to look at what it
puts there.

`Goal` and `Assume` only put goals. The tree of `By` is a composition of goals for the premises, of
the rule, and of either the rule from the goal to itself or, for two premises, the currifier too;
both of these are buildable anywhere.

## Main definitions

* `GoalState.known` — what a proof may use, when some objects are taken for granted
* `GoalState.Outlined` — its tree is an outline from what it may use
* `GoalState.Leads` — a rule with its premises and its conclusion
* `GoalState.reaches` — the premises of a rule lead to a target

## Main results

* `GoalState.Outlined.update` — what may be put in place of the goal in focus
* `GoalState.premisesForGoal_cases` — the two ways in which a rule leads to a goal
* `GoalState.outline_backwardTree` — the tree of `By`, from the parts that it is made of
* `GoalState.Outlined.handleAssume`, `GoalState.Outlined.handleAxiom`
-/

namespace RuleProver

open RuleProver.Expr (GoalFree Buildable Reduced)

theorem bind_eq_ok_iff {ε β γ : Type} {x : Except ε β} {f : β → Except ε γ} {c : γ} :
    (x >>= f) = .ok c ↔ ∃ b, x = .ok b ∧ f b = .ok c := by
  cases x <;> simp [bind, Except.bind]

theorem map_eq_ok_iff {ε β γ : Type} {x : Except ε β} {f : β → γ} {c : γ} :
    x.map f = .ok c ↔ ∃ b, x = .ok b ∧ f b = c := by
  cases x <;> simp [Except.map]

theorem Step.ofExcept_fst_eq_some {σ : Type} {x : Except Fault (Step σ)} {S : σ} :
    (Step.ofExcept x).1 = some S ↔ ∃ step, x = .ok step ∧ step.1 = some S := by
  cases x <;> simp [Step.ofExcept, Step.fault]

/-- An answer that reports success. -/
def Succeeds (r : Except Fault Answer) : Prop := ∃ a, r = .ok a ∧ a.success = true

theorem Expr.reduce_eq_ok_iff [HoleOrder] {α : Type} [Inhabited α] {t u : Expr α} :
    t.reduce = .ok u ↔ t.reduce? = some u := by
  rw [Expr.reduce]
  cases t.reduce? <;> simp

theorem Expr.checkIn_eq_ok_iff [HoleOrder] {α : Type} [Inhabited α] {t : Expr α} {s : Option String}
    {Γ : Context α} {r : Verdict α × Context α} :
    t.checkIn s Γ = .ok r ↔ t.check s Γ = some r := by
  rw [Expr.checkIn]
  cases t.check s Γ <;> simp

/-- A goal keeps its symbol and its statement, and what is to be built is the reduced form. -/
theorem Object.goal_eq_ok_iff [HoleOrder] {s : Option String} {t g : Object} :
    Object.goal s t = .ok g ↔
    ∃ u, t.reduce? = some u ∧ g = .node (.mk none (some (s, t))) .goal [u] := by
  rw [Object.goal, Object.goal?]
  cases t.reduce? with
  | none => simp
  | some u => simp [eq_comm]

theorem Object.goalFor_of_goal [HoleOrder] {s : String} {t g : Object}
    (h : Object.goal (some s) t = .ok g)
    (ht : t.GoalFree) : ∃ m u, g = .node m .goal [u] ∧ GoalFor g s u := by
  obtain ⟨u, hu, rfl⟩ := Object.goal_eq_ok_iff.mp h
  exact ⟨_, u, rfl, rfl, rfl, ht.reduce? hu, Expr.reduced_of_reduce? hu⟩

namespace GoalState

open Object (Outline GoalFor)

variable {S S' : GoalState} {g t u : Object} {Γ Δ : Context Note}

/-- An object that a proof takes for granted, with the symbol that it is taken to hold for. -/
abbrev Grant := Option String × Object

variable {G G' : List Grant}

/-- What a proof may use: the axioms, and what it takes for granted. -/
def known (S : GoalState) (G : List Grant) : Context Note := Context.addAll [] (S.axioms ++ G)

/-- The tree, if there is one, is an outline of something buildable for `=>`. -/
def Outlined [HoleOrder] (S : GoalState) (G : List Grant) : Prop :=
  ∀ t, S.tree = some t → Outline (S.known G) (some "=>") t

theorem lists_known {k : Option String} : (S.known G).lists k t = true ↔
    ∃ e ∈ S.axioms ++ G, k = e.1 ∧ t.same e.2 = true := by
  rw [known, Context.lists_addAll, Context.lists_iff]
  simp [Context.get?]

/-- The context of the goal in focus lists the left sides of the rules above it, then the axioms. -/
theorem context_eq {es : List (Option String × Object)} (ht : S.tree = some t)
    (hes : t.assumptions? = some es) : S.context = (Context.addAll [] es).addAll S.axioms := by
  rw [context, ht, Option.bind_some, Object.scope?_eq_map, hes]
  rfl

theorem context_included {es : List (Option String × Object)} (ht : S.tree = some t)
    (hes : t.assumptions? = some es) : S.context.Included ((S.known G).addAll es) := by
  intro k u hu
  rw [context_eq ht hes, Context.lists_addAll, Context.lists_addAll] at hu
  rw [Context.lists_addAll, lists_known]
  rcases hu with (hu | hu) | ⟨e, he, hu⟩
  · simp [Context.lists, Context.get?] at hu
  · exact .inr hu
  · exact .inl ⟨e, List.mem_append_left _ he, hu⟩

theorem Outlined.goalFor [HoleOrder] (h : S.Outlined G) (hg : S.goal? = some g) :
    ∃ s t, GoalFor g s t := by
  obtain ⟨tree, htree, hfirst⟩ := Option.bind_eq_some_iff.mp hg
  obtain ⟨-, s, t, -, hgoal, -⟩ := (h tree htree).replace hfirst
  exact ⟨s, t, hgoal⟩

/-- **Putting an object in place of the goal in focus.** The tree stays an outline when the object
is an outline in every context that has what the goal may use and what is taken for granted. -/
theorem Outlined.update [HoleOrder] (h : S.Outlined G) (hg : S.goal? = some g)
    (hS : S.update u = .ok S')
    (hu : ∀ Δ, S.context.Included Δ → (∀ e ∈ G', Δ.lists e.1 e.2 = true) →
      Outline Δ g.goalSymbol u) : S'.Outlined (G ++ G') := by
  obtain ⟨tree, htree, hfirst⟩ := Option.bind_eq_some_iff.mp hg
  have hmono : (S.known G).Included (S.known (G ++ G')) := by
    intro k t ht
    rw [lists_known] at ht ⊢
    obtain ⟨e, he, ht⟩ := ht
    exact ⟨e, by rw [← List.append_assoc]; exact List.mem_append_left _ he, ht⟩
  obtain ⟨es, s, t, hes, hgoal, hreplace⟩ := ((h tree htree).mono hmono).replace hfirst
  have hpiece : Outline ((S.known (G ++ G')).addAll es) (some s) u := by
    rw [← hgoal.symbol]
    refine hu _ (context_included htree hes) fun e he => ?_
    rw [Context.lists_addAll, lists_known]
    exact .inl ⟨e, by simp [he], rfl, Expr.same_refl _⟩
  obtain ⟨tree', htree', hout⟩ := hreplace u hpiece
  rw [GoalState.update, htree] at hS
  cases hS
  intro t' ht'
  obtain rfl : tree' = t' := by
    rw [Object.replaceGoal, htree', Option.getD_some] at ht'
    exact Option.some.inj ht'
  exact hout

/-! ## Premises -/

theorem premisesFor_eq_ok_iff [HoleOrder] {term left rule : Object} {ps : List Object}
    {σ : Assignment Note} :
    premisesFor term left rule = .ok (.ok (ps, σ)) ↔
      ∃ r, rule.reduce? = some r ∧ peel left r = some (ps, σ) ∧ ps.length ≤ 2 := by
  rw [premisesFor, bind_eq_ok_iff]
  refine exists_congr fun r => and_congr Expr.reduce_eq_ok_iff ?_
  cases hpeel : peel left r with
  | none =>
    constructor
    · intro h
      cases h
    · rintro ⟨h, -⟩
      cases h
  | some p =>
    obtain ⟨ps', σ'⟩ := p
    dsimp only
    split
    · rename_i hlen
      constructor
      · intro h
        cases h
      · rintro ⟨h, hle⟩
        cases h
        omega
    · rename_i hlen
      constructor
      · intro h
        cases h
        exact ⟨rfl, by omega⟩
      · rintro ⟨h, -⟩
        cases h
        rfl

/-- A rule leads from premises, any number of them, to a conclusion. -/
inductive Leads : Object → List Object → Object → Prop
  | conclusion (c : Object) : Leads c [] c
  | premise {m : Note} {s : String} {p r c : Object} {ps : List Object} (h : Leads r ps c) :
      Leads (.node m (.rule s) [p, r]) (p :: ps) c

/-- The premises and the conclusion of a rule have every property of the rule that the sides of a
rule inherit. -/
theorem Leads.inherit {P : Object → Prop} {r c : Object} {ps : List Object} (h : Leads r ps c)
    (hP : ∀ m s l r, P (.node m (.rule s) [l, r]) → P l ∧ P r) (hr : P r) :
    (∀ p ∈ ps, P p) ∧ P c := by
  induction h with
  | conclusion c => exact ⟨List.forall_mem_nil _, hr⟩
  | premise _ ih =>
    obtain ⟨hp, hrest⟩ := hP _ _ _ _ hr
    exact ⟨List.forall_mem_cons.mpr ⟨hp, (ih hrest).1⟩, (ih hrest).2⟩

/-- What is left when premises have been peeled off is what the target is unified with. -/
theorem exists_leads_of_peel {target r : Object} {ps : List Object} {σ : Assignment Note}
    (h : peel target r = some (ps, σ)) : ∃ c, Leads r ps c ∧ target.unifier? c = some σ := by
  induction r using Expr.induction_on_children generalizing ps with
  | hole m x =>
    obtain ⟨τ, hτ, heq⟩ := Option.map_eq_some_iff.mp h
    cases heq
    exact ⟨_, .conclusion _, hτ⟩
  | node m hd ts ih =>
    unfold peel at h
    split at h
    · rename_i m' s l r heq
      cases heq
      split at h
      · rename_i hτ
        cases h
        exact ⟨_, .conclusion _, hτ⟩
      · obtain ⟨⟨qs, τ⟩, hpeel, heq⟩ := Option.map_eq_some_iff.mp h
        cases heq
        obtain ⟨c, hleads, hunified⟩ := ih r (by simp) hpeel
        exact ⟨c, .premise hleads, hunified⟩
    · obtain ⟨τ, hτ, heq⟩ := Option.map_eq_some_iff.mp h
      cases heq
      exact ⟨_, .conclusion _, hτ⟩

theorem exists_leads_of_premisesFor [HoleOrder] {term left rule : Object} {ps : List Object}
    {σ : Assignment Note} (h : premisesFor term left rule = .ok (.ok (ps, σ))) :
    ∃ r c, rule.reduce? = some r ∧ Leads r ps c ∧ left.unifier? c = some σ := by
  obtain ⟨r, hr, hpeel, -⟩ := premisesFor_eq_ok_iff.mp h
  obtain ⟨c, hleads, hunified⟩ := exists_leads_of_peel hpeel
  exact ⟨r, c, hr, hleads, hunified⟩

/-- The premises of a goal-free rule for a goal-free target are goal-free. -/
theorem goalFree_of_premisesFor [HoleOrder] {term left rule : Object} {ps : List Object}
    {σ : Assignment Note}
    (h : premisesFor term left rule = .ok (.ok (ps, σ))) (hleft : left.GoalFree)
    (hrule : rule.GoalFree) : ∀ p ∈ ps, (p.fill σ).GoalFree := by
  obtain ⟨r, c, hr, hleads, hσ⟩ := exists_leads_of_premisesFor h
  obtain ⟨hps, hc⟩ := hleads.inherit (P := Expr.GoalFree)
    (fun m s l r h => (Expr.goalFree_pair.mp h).2) (hrule.reduce? hr)
  exact fun p hp => (hps p hp).fill hleft hc hσ

/-- Whether the premises of a rule lead to a target. -/
def reaches [HoleOrder] (target rule : Object) : Bool :=
  rule.reduce?.any fun r => (peel target r).any fun p => decide (p.1.length ≤ 2)

theorem premisesFor_of_reaches [HoleOrder] {target rule : Object} (h : reaches target rule = true)
    (term : Object) : ∃ ps σ, premisesFor term target rule = .ok (.ok (ps, σ)) := by
  rw [reaches] at h
  cases hr : rule.reduce? with
  | none => simp [hr] at h
  | some r =>
    cases hpeel : peel target r with
    | none => simp [hr, hpeel] at h
    | some p =>
      refine ⟨p.1, p.2, premisesFor_eq_ok_iff.mpr ⟨r, hr, hpeel, ?_⟩⟩
      simpa [hr, hpeel] using h

theorem premisesForGoal_cases [HoleOrder] {symbol : Option String} {goalTerm rule term : Object}
    {ps : List Object} {σ : Assignment Note}
    (h : premisesForGoal symbol goalTerm rule = .ok (.ok (term, ps, σ))) :
    (term = goalTerm.identity (symbolText symbol) ∧
      premisesFor term goalTerm rule = .ok (.ok (ps, σ))) ∨
    (term = goalTerm ∧ reaches goalTerm rule = false ∧ ∃ m s l r,
      goalTerm = .node m (.rule s) [l, r] ∧ premisesFor goalTerm l rule = .ok (.ok (ps, σ))) := by
  rw [premisesForGoal, bind_eq_ok_iff] at h
  obtain ⟨first, hfirst, h⟩ := h
  cases first with
  | ok p =>
    cases h
    exact .inl ⟨rfl, hfirst⟩
  | error e =>
    right
    dsimp only at h
    split at h
    · rename_i m s l r
      obtain ⟨second, hsecond, h⟩ := bind_eq_ok_iff.mp h
      cases second with
      | error e => cases h
      | ok p =>
        cases h
        refine ⟨rfl, ?_, m, s, l, r, rfl, hsecond⟩
        by_contra hreach
        obtain ⟨ps', σ', hok⟩ := premisesFor_of_reaches (by simpa using hreach) _
        rw [hok] at hfirst
        cases hfirst
    · cases h

/-! ## Parts that are always built -/

theorem buildable_of_lists [HoleOrder] {s : Option String} (ht : t.Reduced)
    (h : Γ.lists s t = true) :
    Buildable Γ s t :=
  .listed ht.reduce? h

theorem buildable_identity [HoleOrder] {s : Option String} {s' : String} (ht : t.Reduced) :
    Buildable Γ s (t.identity s') :=
  .rule ht.reduce? (buildable_of_lists ht (Context.lists_add.mpr (.inr ⟨rfl, Expr.same_refl t⟩)))

/-- The currifier is a proof: each of its parts is one of the left sides above it. -/
theorem buildable_currifier [HoleOrder] (s : Option String) (s' : String) :
    Buildable Γ s (currifier s') := by
  have hx : (Expr.var "X" : Object).Reduced := Expr.reduced_of_compFree (by simp)
  have hy : (Expr.var "Y" : Object).Reduced := Expr.reduced_of_compFree (by simp)
  have hinner : (Expr.rule (.var "X") s' (.rule (.var "Y") s' (.var "Z")) : Object).Reduced :=
    Expr.reduced_of_compFree (by simp)
  have hstep : (Expr.rule (.var "Z") s' (.var "W") : Object).Reduced :=
    Expr.reduced_of_compFree (by simp)
  refine .rule hinner.reduce? (.rule hstep.reduce? (.rule hx.reduce? (.rule hy.reduce? ?_)))
  refine .comp (.comp ?_ (.comp ?_ ?_)) ?_
  · exact buildable_of_lists hy (by simp [Context.lists_add, Expr.same_refl])
  · exact buildable_of_lists hx (by simp [Context.lists_add, Expr.same_refl])
  · exact buildable_of_lists hinner (by simp [Context.lists_add, Expr.same_refl])
  · exact buildable_of_lists hstep (by simp [Context.lists_add, Expr.same_refl])

theorem goalFree_currifier (s : String) : (currifier s).GoalFree := by
  simp [currifier]

/-- A new goal is an outline. -/
theorem outline_of_goal [HoleOrder] {s : String} (h : Object.goal (some s) t = .ok g)
    (ht : t.GoalFree) :
    Outline Γ (some s) g := by
  obtain ⟨m, u, rfl, hgoal⟩ := Object.goalFor_of_goal h ht
  exact .goal hgoal.symbol hgoal.free hgoal.reduced

theorem outline_premiseGoals [HoleOrder] {s : String} {σ : Assignment Note} {ps : List Object}
    {built tree : Object} (h : premiseGoals (some s) σ ps built = .ok tree)
    (hps : ∀ p ∈ ps, (p.fill σ).GoalFree) (hbuilt : Outline Γ (some s) built) :
    Outline Γ (some s) tree := by
  induction ps generalizing built with
  | nil =>
    cases h
    exact hbuilt
  | cons p ps ih =>
    obtain ⟨hp, hps⟩ := List.forall_mem_cons.mp hps
    rw [premiseGoals, bind_eq_ok_iff] at h
    obtain ⟨g, hg, h⟩ := h
    exact ih h hps (.comp (outline_of_goal hg hp) hbuilt)

theorem outline_backwardTree [HoleOrder] {s : String} {σ : Assignment Note} {ps : List Object}
    {term rule tree : Object} (h : backwardTree term (some s) rule ps σ = .ok tree)
    (hps : ∀ p ∈ ps, (p.fill σ).GoalFree) (hterm : Outline Γ (some s) term)
    (hrule : Outline Γ (some s) rule) : Outline Γ (some s) tree := by
  rw [backwardTree] at h
  split at h
  · have hcurrifier : Outline Γ (some s) (currifier s) :=
      .built (goalFree_currifier s) (buildable_currifier (some s) s)
    exact outline_premiseGoals h hps (.comp hterm (.comp hrule hcurrifier))
  · exact outline_premiseGoals h hps (.comp hrule hterm)

/-! ## Stating goals, assuming premises, adding axioms -/

theorem handleGoal_cases [HoleOrder] (h : (S.handleGoal t).1 = some S') :
    ∃ g, Object.goal (some "=>") t = .ok g ∧ S' = ⟨some g, S.axioms⟩ := by
  obtain ⟨step, hstep, hS'⟩ := Step.ofExcept_fst_eq_some.mp h
  obtain ⟨⟨S₁, g⟩, hset, hstep⟩ := bind_eq_ok_iff.mp hstep
  obtain ⟨g', hg', hset⟩ := bind_eq_ok_iff.mp hset
  cases hset
  cases hstep
  cases hS'
  exact ⟨_, hg', rfl⟩

theorem handleGoal_outlined [HoleOrder] (h : (S.handleGoal t).1 = some S') (ht : t.GoalFree) :
    S'.Outlined [] := by
  obtain ⟨g, hg, rfl⟩ := handleGoal_cases h
  rintro tree ⟨⟩
  exact outline_of_goal hg ht

/-- `Assume` puts the rule from the left side of the goal to a goal for its right side. -/
theorem handleAssume_cases [HoleOrder] {arg? : Option Object}
    (h : (S.handleAssume arg?).1.1 = some S') :
    ∃ g m s l r g', S.goal? = some g ∧ g.goalTerm? = some (.node m (.rule s) [l, r]) ∧
      Object.goal (some s) r = .ok g' ∧ S.update (Expr.rule l s g') = .ok S' := by
  rw [handleAssume] at h
  cases hg : S.goal? with
  | none => simp [hg, Step.fault] at h
  | some g =>
    rw [hg] at h
    dsimp only at h
    split at h
    · rename_i m s l r hterm
      suffices ∃ g', Object.goal (some s) r = .ok g' ∧ S.update (Expr.rule l s g') = .ok S' by
        obtain ⟨g', hg', hupdate⟩ := this
        exact ⟨g, m, s, l, r, g', rfl, hterm, hg', hupdate⟩
      split at h
      · rename_i p hp
        split at hp
        · obtain ⟨a, -, hp⟩ := bind_eq_ok_iff.mp hp
          obtain ⟨l', -, hp⟩ := bind_eq_ok_iff.mp hp
          split at hp
          · cases hp
            cases h
          · obtain ⟨g', hg', hp⟩ := bind_eq_ok_iff.mp hp
            obtain ⟨S₁, hS₁, hp⟩ := bind_eq_ok_iff.mp hp
            cases hp
            cases h
            exact ⟨g', hg', hS₁⟩
        · obtain ⟨g', hg', hp⟩ := bind_eq_ok_iff.mp hp
          obtain ⟨S₁, hS₁, hp⟩ := bind_eq_ok_iff.mp hp
          cases hp
          cases h
          exact ⟨g', hg', hS₁⟩
      · cases h
    · simp [Step.stay] at h

theorem Outlined.handleAssume [HoleOrder] {arg? : Option Object} (hS : S.Outlined G)
    (h : (S.handleAssume arg?).1.1 = some S') : S'.Outlined G := by
  obtain ⟨g, m, s, l, r, g', hg, hterm, hg', hupdate⟩ := handleAssume_cases h
  obtain ⟨s₀, t, hgoal⟩ := hS.goalFor hg
  obtain rfl := Option.some.inj (hterm.symm.trans hgoal.term)
  obtain ⟨-, hl, hr⟩ := Expr.goalFree_pair.mp hgoal.free
  rw [← List.append_nil G]
  exact hS.update hg hupdate fun Δ _ _ => .rule hl hgoal.reduced.sides.1 (outline_of_goal hg' hr)

theorem handleAxiom_cases {args : List Object} (h : (S.handleAxiom args).1 = some S') :
    ∃ s t, args.getLast? = some t ∧ S' = S.addAxiom s t := by
  unfold handleAxiom at h
  split at h
  · cases h
    exact ⟨_, _, rfl, rfl⟩
  · cases h
    exact ⟨_, _, rfl, rfl⟩
  · cases h

theorem Outlined.handleAxiom [HoleOrder] {args : List Object} (hS : S.Outlined G)
    (h : (S.handleAxiom args).1 = some S') : S'.Outlined G := by
  obtain ⟨s, t, -, rfl⟩ := handleAxiom_cases h
  intro tree htree
  refine (hS tree htree).mono fun k u hu => ?_
  rw [lists_known] at hu ⊢
  obtain ⟨e, he, hu⟩ := hu
  refine ⟨e, ?_, hu⟩
  simp only [addAxiom, List.mem_append] at he ⊢
  exact he.imp_left .inl

end GoalState

end RuleProver
