import RuleProver.Proofs.GivenNames
import RuleProver.Proofs.GoalSearch

/-!
# Notes of names

An object that was put in place of a name has a note of the name and of what the name stood for. The
notes go with the objects: into the aliases, the chain, the functorial rules and the tree of the
goals, and through composing and reducing. Nothing else writes such a note. So a relation between
names and expressions that holds of all notes that a session keeps, and of the names that a
directive replaces, holds of all notes that are kept afterwards.

## Main definitions

* `Note.Backed` — a relation holds of the name that a note remembers
* `Session.Backed` — it holds of all notes that a session keeps

## Main results

* `Aliases.Backed.expand` — replacing names
* `GoalState.Backed.next` — moving the goals on
* `Session.Backed.process` — carrying out a directive
-/

namespace RuleProver

/-! ## Marks in parts and in numerals -/

namespace Expr

variable {α : Type} {p : α → Prop}

theorem Marked.of_mem_parts {t u : Expr α} (ht : t.Marked p) (hu : u ∈ t.parts) : u.Marked p := by
  induction t with
  | hole m x =>
    rw [parts_hole, List.mem_singleton] at hu
    rwa [hu]
  | node m h cs ih =>
    rw [parts_node, List.mem_cons, List.mem_flatMap] at hu
    rcases hu with rfl | ⟨c, hc, hu⟩
    · exact ht
    · exact ih c hc ((marked_node.mp ht).2 c hc) hu

variable [Inhabited α]

theorem marked_successors (hp : p default) (n : Nat) : (successors n : Expr α).Marked p := by
  induction n with
  | zero => exact marked_node.mpr ⟨hp, nofun⟩
  | succ n ih => exact marked_node.mpr ⟨hp, List.forall_mem_singleton.mpr ih⟩

/-- Turning numerals into successors hands marks on. -/
theorem Marked.toSuccessors {t u : Expr α} (ht : t.Marked p) (hp : p default)
    (h : t.toSuccessors = .ok u) : u.Marked p := by
  induction t using induction_on_constants generalizing u with
  | hole m x =>
    rw [toSuccessors_hole] at h
    cases h
    exact ht
  | const m name =>
    obtain ⟨-, rfl⟩ | ⟨n, -, -, rfl⟩ := toSuccessors_const_cases h
    · exact ht
    · exact (marked_successors hp n).withMark ht.root
  | node m hd cs hc ih =>
    obtain ⟨hm, hcs⟩ := marked_node.mp ht
    rw [toSuccessors_node hc, map_eq_ok_iff] at h
    obtain ⟨us, hus, rfl⟩ := h
    refine marked_node.mpr ⟨hm, forall_mem_of_toSuccessorsAll hus fun c hc u hu => ?_⟩
    exact ih c hc (hcs c hc) hu

theorem Marked.toSuccessorsAll {ts us : List (Expr α)} (hts : ∀ t ∈ ts, t.Marked p)
    (hp : p default) (h : Expr.toSuccessorsAll ts = .ok us) : ∀ u ∈ us, u.Marked p :=
  forall_mem_of_toSuccessorsAll h fun t ht _ hu => (hts t ht).toSuccessors hp hu

end Expr

/-! ## Names and functorial rules -/

variable {K K' : String → Expr Unit → Prop}

/-- What a note says of a name is so by a relation. -/
def Note.Backed (K : String → Expr Unit → Prop) (m : Note) : Prop :=
  ∀ name form, m.expandedFrom = some (name, form) → K name form

theorem Note.backed_of_expandedFrom {m : Note} (h : m.expandedFrom = none) : m.Backed K := by
  intro name form hfrom
  rw [h] at hfrom
  cases hfrom

theorem Note.backed_default : (default : Note).Backed K := backed_of_expandedFrom rfl

theorem Note.Backed.mono {m : Note} (h : m.Backed K)
    (hK : ∀ name form, K name form → K' name form) : m.Backed K' :=
  fun name form hfrom => hK name form (h name form hfrom)

namespace Aliases

variable {A : Aliases}

/-- The notes in what names stand for are backed. -/
def Backed (K : String → Expr Unit → Prop) (A : Aliases) : Prop :=
  ∀ e ∈ A, e.2.Marked (Note.Backed K)

theorem Backed.define (hA : A.Backed K) (name : String) {t : Object}
    (ht : t.Marked (Note.Backed K)) : (A.define name t).Backed K := by
  intro e he
  rcases List.mem_append.mp he with he | he
  · exact hA e (List.mem_filter.mp he).1
  · obtain rfl := List.mem_singleton.mp he
    exact ht

/-- **Replacing names** writes notes of the names that are replaced, and of no others. -/
theorem Backed.expand (hA : A.Backed K) (hK : ∀ x u, A.get? x = some u → K x u.erase) {t : Object}
    (ht : t.Marked (Note.Backed K)) : (A.expand t).Marked (Note.Backed K) := by
  induction t using Expr.induction_on_constants with
  | hole m x =>
    rw [expand_hole]
    exact ht
  | const m x =>
    cases hx : A.get? x with
    | none =>
      rw [expand_of_get?_eq_none hx]
      exact ht
    | some u =>
      rw [expand_of_get? hx]
      refine (hA _ (Assignment.mem_of_get? hx)).withMark fun name form hfrom => ?_
      cases hfrom
      exact hK x u hx
  | node m h cs hc ih =>
    obtain ⟨hm, hcs⟩ := Expr.marked_node.mp ht
    rw [expand_node hc, Expr.marked_node, List.forall_mem_map]
    exact ⟨hm, fun c hc => ih c hc (hcs c hc)⟩

end Aliases

namespace Functorials

variable {F : Functorials}

/-- The notes in functorial rules are backed. -/
def Backed (K : String → Expr Unit → Prop) (F : Functorials) : Prop :=
  ∀ f ∈ F, f.rule.Marked (Note.Backed K)

theorem Backed.register (hF : F.Backed K) {f : Functorial} (hf : f.rule.Marked (Note.Backed K)) :
    (F.register f).Backed K := by
  intro g hg
  rcases List.mem_append.mp hg with hg | hg
  · exact hF g (List.mem_filter.mp hg).1
  · obtain rfl := List.mem_singleton.mp hg
    exact hf

theorem Backed.lift (hF : F.Backed K) {rule u : Object} {s : String}
    {steps : List (Option String × Nat)} (h : F.lift rule s steps = some u)
    (hrule : rule.Marked (Note.Backed K)) : u.Marked (Note.Backed K) := by
  induction steps generalizing rule s with
  | nil =>
    cases h
    exact hrule
  | cons step steps ih =>
    obtain ⟨name, i⟩ := step
    obtain ⟨n, -, h⟩ := Option.bind_eq_some_iff.mp h
    obtain ⟨f, hf, h⟩ := Option.bind_eq_some_iff.mp h
    have hlifts := hF f (List.mem_of_find?_eq_some hf)
    exact ih h (Expr.marked_pair.mpr ⟨Note.backed_default, hrule, hlifts⟩)

theorem Backed.prepareUse (hF : F.Backed K) {c? : Option Chain} {args args' : List Object}
    (h : F.prepareUse c? args = .ok args') (hargs : ∀ a ∈ args, a.Marked (Note.Backed K)) :
    ∀ a ∈ args', a.Marked (Note.Backed K) := by
  unfold Functorials.prepareUse at h
  split at h
  · cases h
  · cases h
    exact hargs
  · rename_i rule positions _
    have hrule := hargs rule List.mem_cons_self
    obtain ⟨path?, -, h⟩ := bind_eq_ok_iff.mp h
    split at h
    · cases h
      exact List.forall_mem_singleton.mpr hrule
    · rename_i path
      cases h
      rw [List.forall_mem_singleton]
      cases hlifted : F.lifted? c? rule path with
      | none => exact hrule
      | some u =>
        obtain ⟨c, -, hlifted⟩ := Option.bind_eq_some_iff.mp hlifted
        split at hlifted
        · obtain ⟨steps, -, hlift⟩ := Option.bind_eq_some_iff.mp hlifted
          exact hF.lift hlift hrule
        · cases hlifted

end Functorials

/-! ## Goals -/

namespace Object

variable {t u g : Object}

theorem mem_parts_of_mem_openGoals (h : g ∈ t.openGoals) : g ∈ t.parts := by
  induction t using Expr.induction_on_children with
  | hole m x => cases h
  | node m hd cs ih =>
    rw [Expr.parts_node]
    by_cases hgoal : hd = .goal
    · subst hgoal
      rw [openGoals, List.mem_singleton] at h
      rw [h]
      exact List.mem_cons_self
    · rw [openGoals, openGoalsOf_eq_flatMap, List.mem_flatMap] at h
      · obtain ⟨c, hc, hg⟩ := h
        exact List.mem_cons_of_mem _ (List.mem_flatMap.mpr ⟨c, hc, ih c hc hg⟩)
      · exact hgoal

theorem Exchanged.marked {p : Note → Prop} {path : List Nat} {gs : List Object} {t' : Object}
    (h : Exchanged u t path g gs t') (hu : u.Marked p) (ht : t.Marked p) : t'.Marked p := by
  induction h with
  | here m cs => exact hu
  | child _ _ _ ih =>
    simp only [Expr.marked_node, List.forall_mem_append, List.forall_mem_cons] at ht ⊢
    obtain ⟨hm, hbefore, hc, hafter⟩ := ht
    exact ⟨hm, hbefore, ih hc, hafter⟩

/-- Putting an object in place of the goal in focus hands marks on. -/
theorem marked_replaceGoal {p : Note → Prop} (hu : u.Marked p) (ht : t.Marked p) :
    (replaceGoal u t).Marked p := by
  cases hg : t.firstGoal? with
  | none => rwa [replaceGoal_of_goalFree (firstGoal?_eq_none_iff.mp hg)]
  | some g =>
    obtain ⟨path, gs, t', h⟩ := exists_exchanged u hg
    rw [h.replaceGoal_eq]
    exact h.marked hu ht

theorem backed_goal [HoleOrder] {s : Option String} (h : Object.goal s t = .ok g)
    (ht : t.Marked (Note.Backed K)) : g.Marked (Note.Backed K) := by
  obtain ⟨u, hu, rfl⟩ := Object.goal_eq_ok_iff.mp h
  refine Expr.marked_node.mpr ⟨Note.backed_of_expandedFrom rfl, List.forall_mem_singleton.mpr ?_⟩
  exact ht.reduce? Note.backed_default hu

theorem marked_goalTerm? {p : Note → Prop} (hg : g.Marked p) (h : g.goalTerm? = some t) :
    t.Marked p := by
  unfold goalTerm? at h
  split at h
  · cases h
    exact (Expr.marked_node.mp hg).2 _ List.mem_cons_self
  · cases h

end Object

namespace GoalState

variable {S S' : GoalState} {t g : Object}

/-- The notes in the tree of the goals are backed. -/
def Backed (K : String → Expr Unit → Prop) (S : GoalState) : Prop :=
  ∀ tree, S.tree = some tree → tree.Marked (Note.Backed K)

theorem Backed.of_mem_goals (hS : S.Backed K) (h : g ∈ S.goals) : g.Marked (Note.Backed K) := by
  rw [goals] at h
  cases htree : S.tree with
  | none =>
    rw [htree] at h
    cases h
  | some tree =>
    rw [htree] at h
    exact (hS tree htree).of_mem_parts (Object.mem_parts_of_mem_openGoals h)

theorem mem_goals_of_goal? (h : S.goal? = some g) : g ∈ S.goals := by
  obtain ⟨tree, htree, hfirst⟩ := Option.bind_eq_some_iff.mp h
  rw [goals, htree]
  exact Object.mem_openGoals_of_firstGoal? hfirst

theorem Backed.goalTerm (hS : S.Backed K) (h : S.goal? = some g) :
    (goalTerm g).Marked (Note.Backed K) := by
  rw [GoalState.goalTerm]
  cases ht : g.goalTerm? with
  | none => exact hS.of_mem_goals (mem_goals_of_goal? h)
  | some t => exact Object.marked_goalTerm? (hS.of_mem_goals (mem_goals_of_goal? h)) ht

theorem Backed.update (hS : S.Backed K) (h : S.update t = .ok S') (ht : t.Marked (Note.Backed K)) :
    S'.Backed K := by
  rw [GoalState.update] at h
  cases htree : S.tree with
  | none =>
    rw [htree] at h
    cases h
  | some tree =>
    rw [htree] at h
    cases h
    rintro _ ⟨⟩
    exact Object.marked_replaceGoal ht (hS tree htree)

theorem marked_of_premisesFor [HoleOrder] {term left rule : Object} {ps : List Object}
    {σ : Assignment Note}
    (h : premisesFor term left rule = .ok (.ok (ps, σ))) (hleft : left.Marked (Note.Backed K))
    (hrule : rule.Marked (Note.Backed K)) : ∀ q ∈ ps, (q.fill σ).Marked (Note.Backed K) := by
  obtain ⟨r, c, hr, hleads, hσ⟩ := exists_leads_of_premisesFor h
  obtain ⟨hps, hc⟩ := hleads.inherit (P := Expr.Marked (Note.Backed K))
    (fun m s l r h => (Expr.marked_pair.mp h).2) (hrule.reduce? Note.backed_default hr)
  exact fun q hq => (hps q hq).fill hleft hc hσ

theorem marked_premiseGoals [HoleOrder] {s : Option String} {σ : Assignment Note} {ps : List Object}
    {built tree : Object} (h : premiseGoals s σ ps built = .ok tree)
    (hps : ∀ q ∈ ps, (q.fill σ).Marked (Note.Backed K)) (hbuilt : built.Marked (Note.Backed K)) :
    tree.Marked (Note.Backed K) := by
  induction ps generalizing built with
  | nil =>
    cases h
    exact hbuilt
  | cons q ps ih =>
    obtain ⟨hq, hps⟩ := List.forall_mem_cons.mp hps
    rw [premiseGoals, bind_eq_ok_iff] at h
    obtain ⟨g, hg, h⟩ := h
    have hg' := Object.backed_goal hg hq
    exact ih h hps (Expr.marked_pair.mpr ⟨Note.backed_default, hg', hbuilt⟩)

theorem marked_currifier (s : String) : (currifier s).Marked (Note.Backed K) := by
  simp [currifier, Expr.rule, Expr.comp, Expr.var, Note.backed_default]

theorem marked_backwardTree [HoleOrder] {s : Option String} {σ : Assignment Note} {ps : List Object}
    {term rule tree : Object} (h : backwardTree term s rule ps σ = .ok tree)
    (hps : ∀ q ∈ ps, (q.fill σ).Marked (Note.Backed K)) (hterm : term.Marked (Note.Backed K))
    (hrule : rule.Marked (Note.Backed K)) : tree.Marked (Note.Backed K) := by
  have hcomp : ∀ {a b : Object}, a.Marked (Note.Backed K) → b.Marked (Note.Backed K) →
      (Expr.comp a b).Marked (Note.Backed K) :=
    fun ha hb => Expr.marked_pair.mpr ⟨Note.backed_default, ha, hb⟩
  rw [backwardTree] at h
  split at h
  · exact marked_premiseGoals h hps (hcomp hterm (hcomp hrule (marked_currifier _)))
  · exact marked_premiseGoals h hps (hcomp hrule hterm)

theorem Backed.handleGoal [HoleOrder] (h : (S.handleGoal t).1 = some S')
    (ht : t.Marked (Note.Backed K)) :
    S'.Backed K := by
  obtain ⟨g, hg, rfl⟩ := handleGoal_cases h
  rintro tree ⟨⟩
  exact Object.backed_goal hg ht

theorem Backed.handleAssume [HoleOrder] (hS : S.Backed K) {arg? : Option Object}
    (h : (S.handleAssume arg?).1.1 = some S') : S'.Backed K := by
  obtain ⟨g, m, s, l, r, g', hg, hterm, hg', hupdate⟩ := handleAssume_cases h
  have hgoal := hS.of_mem_goals (mem_goals_of_goal? hg)
  obtain ⟨-, hl, hr⟩ := Expr.marked_pair.mp (Object.marked_goalTerm? hgoal hterm)
  exact hS.update hupdate
    (Expr.marked_pair.mpr ⟨Note.backed_default, hl, Object.backed_goal hg' hr⟩)

theorem Backed.handleBy [HoleOrder] (hS : S.Backed K) {rule : Object} {force? : Option Object}
    (h : (S.handleBy rule force?).1 = some S') (hrule : rule.Marked (Note.Backed K)) :
    S'.Backed K := by
  obtain ⟨g, term, ps, σ, used, tree, hg, hpremises, hused, htree, hupdate⟩ := handleBy_cases h
  have hgoal := hS.goalTerm hg
  have hused' : used.Marked (Note.Backed K) := by
    rcases hused with ⟨rfl, -⟩ | ⟨-, hforced⟩
    · exact hrule
    · exact Object.backed_goal hforced hrule
  rcases premisesForGoal_cases hpremises with
    ⟨rfl, hps⟩ | ⟨rfl, -, m, s, l, r, hrewriting, hps⟩
  · refine hS.update hupdate (marked_backwardTree htree (marked_of_premisesFor hps hgoal hrule) ?_
      hused')
    exact hgoal.identity Note.backed_default _
  · have hl : l.Marked (Note.Backed K) := (Expr.marked_pair.mp (hrewriting ▸ hgoal)).2.1
    exact hS.update hupdate
      (marked_backwardTree htree (marked_of_premisesFor hps hl hrule) hgoal hused')

theorem Backed.handleDone [HoleOrder] (hS : S.Backed K) {c? : Option Object}
    (h : (S.handleDone c?).1 = some S') (hc : ∀ c, c? = some c → c.Marked (Note.Backed K)) :
    S'.Backed K := by
  obtain ⟨g, hg, ⟨c, rfl, hclose⟩ | ⟨-, -, hupdate⟩⟩ := handleDone_cases h
  · have hc := hc c rfl
    obtain ⟨v, Δ, r, -, -, hr, hcases⟩ := closeWith_cases hclose
    rcases hcases with ⟨-, hupdate⟩ | ⟨-, m, s, l, r', rfl, -, -, hupdate⟩
    · exact hS.update hupdate hc
    · obtain ⟨-, hl, -⟩ := Expr.marked_pair.mp (hc.reduce? Note.backed_default hr)
      exact hS.update hupdate (Expr.marked_pair.mpr ⟨Note.backed_default, hl, hc⟩)
  · exact hS.update hupdate (hS.goalTerm hg)

theorem Backed.handleAxiom (hS : S.Backed K) {args : List Object}
    (h : (S.handleAxiom args).1 = some S') : S'.Backed K := by
  obtain ⟨s, t, -, rfl⟩ := handleAxiom_cases h
  exact hS

/-- **Moving the goals on** hands the notes on. -/
theorem Backed.next [HoleOrder] (hS : S.Backed K) {v : Verb} {args : List Object}
    (hargs : ∀ a ∈ args, a.Marked (Note.Backed K)) (h : S.next? v args = some S') :
    S'.Backed K := by
  cases moves_of_next? h with
  | goal ht hstep => exact .handleGoal hstep (hargs _ ht)
  | assume hstep => exact hS.handleAssume hstep
  | leadBack hrule hstep => exact hS.handleBy hstep (hargs _ hrule)
  | done hc hstep => exact hS.handleDone hstep fun c hc? => hargs c (hc c hc?)
  | posit hstep => exact hS.handleAxiom hstep

end GoalState

/-! ## Sessions -/

theorem History.Anchored.current_mem {σ : Type} {h : History σ} (hh : h.Anchored) :
    h.current ∈ h.stack :=
  List.mem_of_mem_head? hh.top

namespace Session

variable {S S' : Session} {d : Directive} {args : List Object}

/-- All notes that a session keeps are backed, also those in states that can be returned to. -/
structure Backed (K : String → Expr Unit → Prop) (S : Session) : Prop where
  aliases : ∀ A ∈ S.aliases.stack, Aliases.Backed K A
  chain : ∀ c? ∈ S.chain.stack, ∀ c, c? = some c → c.unreduced.Marked (Note.Backed K)
  functorials : ∀ F ∈ S.functorials.stack, Functorials.Backed K F
  goals : ∀ G ∈ S.goals.stack, GoalState.Backed K G

theorem backed_initial : initial.Backed K where
  aliases := List.forall_mem_singleton.mpr nofun
  chain := List.forall_mem_singleton.mpr nofun
  functorials := List.forall_mem_singleton.mpr nofun
  goals := List.forall_mem_singleton.mpr nofun

theorem Backed.mono (hS : S.Backed K) (hK : ∀ name form, K name form → K' name form) :
    S.Backed K' := by
  have hmarked : ∀ {t : Object}, t.Marked (Note.Backed K) → t.Marked (Note.Backed K') :=
    fun ht => ht.mono fun m hm => hm.mono hK
  exact {
    aliases := fun A hA e he => hmarked (hS.aliases A hA e he)
    chain := fun c? hc? c hc => hmarked (hS.chain c? hc? c hc)
    functorials := fun F hF f hf => hmarked (hS.functorials F hF f hf)
    goals := fun G hG tree htree => hmarked (hS.goals G hG tree htree) }

/-- Taking states away leaves no new notes. -/
theorem Backed.of_suffix (hS : S.Backed K)
    (h : Compares (fun h₀ h => h.stack <:+ h₀.stack) S S') : S'.Backed K where
  aliases A hA := hS.aliases A (h.aliases.subset hA)
  chain c? hc? := hS.chain c? (h.chain.subset hc?)
  functorials F hF := hS.functorials F (h.functorials.subset hF)
  goals G hG := hS.goals G (h.goals.subset hG)

/-! ### Preparing arguments -/

/-- The name that a directive gives to one of its arguments. -/
theorem Backed.named (hS : S.Backed K) (hintact : S.Intact)
    (hd : ∀ a ∈ d.args, a.Marked (Note.Backed K)) : (S.named d).Backed K := by
  rcases S.named_cases d with heq | ⟨n, t, args, -, hleading, heq⟩
  · rw [heq]
    exact hS
  · refine { hS with aliases := fun A hA => ?_ }
    rw [heq] at hA
    rcases List.mem_cons.mp hA with rfl | hA
    · have ht := hd t (mem_of_leadingName? hleading).1
      exact (hS.aliases _ hintact.aliases.current_mem).define n ht
    · exact hS.aliases A hA

theorem Backed.expandNames {A : Aliases} (hA : A.Backed K)
    (hK : ∀ x u, A.get? x = some u → K x u.erase) (directive : String)
    (hargs : ∀ a ∈ args, a.Marked (Note.Backed K)) :
    ∀ a ∈ expandNames A directive args, a.Marked (Note.Backed K) := by
  cases args with
  | nil => nofun
  | cons arg args =>
    obtain ⟨harg, hargs⟩ := List.forall_mem_cons.mp hargs
    rw [Session.expandNames, Aliases.expandAll_eq_map, List.forall_mem_cons, List.forall_mem_map]
    refine ⟨?_, fun a ha => hA.expand hK (hargs a ha)⟩
    split
    · exact harg
    · exact hA.expand hK harg

variable [HoleOrder]

/-- The components that come after the aliases. -/
theorem Backed.prepareOwn (hS : S.Backed K) (hintact : S.Intact) {directive : String}
    {p p' : Prepared} {c : Component} (hc : c ≠ .alias)
    (hp : ∀ a ∈ p.args, a.Marked (Note.Backed K))
    (h : (S.prepareOwn directive p c).2 = .ok p') : ∀ a ∈ p'.args, a.Marked (Note.Backed K) := by
  rcases c with _ | _ | _ | _ | _
  · exact absurd rfl hc
  · -- the chain stands in for the argument of `Done`
    rw [Session.prepareOwn] at h
    split at h
    · split at h
      · cases h
        intro a ha
        obtain ⟨c, hcurrent, rfl⟩ := Option.map_eq_some_iff.mp (Option.mem_toList.mp ha)
        exact hS.chain _ hintact.chain.current_mem c hcurrent
      · cases h
    · cases h
      exact hp
  · -- a functorial rule lifts the argument of `Use`
    rw [Session.prepareOwn, prepareRule] at h
    split at h
    · obtain ⟨args, hargs, rfl⟩ := map_eq_ok_iff.mp h
      exact (hS.functorials _ hintact.functorials.current_mem).prepareUse hargs hp
    · cases h
      exact hp
  · obtain ⟨args, hargs, rfl⟩ := map_eq_ok_iff.mp h
    exact Expr.Marked.toSuccessorsAll hp Note.backed_default hargs
  · rw [Session.prepareOwn, prepareWarning] at h
    split at h
    · split at h
      · obtain ⟨w, -, rfl⟩ := map_eq_ok_iff.mp h
        exact hp
      · cases h
    · cases h
      exact hp

theorem Backed.prepare_of_ne (hS : S.Backed K) (hintact : S.Intact) {directive : String}
    {p p' : Prepared} {sts : List Station} (hsts : ∀ st ∈ sts, ∃ c, c ≠ .alias ∧ st = .own c)
    (hp : ∀ a ∈ p.args, a.Marked (Note.Backed K))
    (h : (S.prepare directive p sts).2 = .ok p') : ∀ a ∈ p'.args, a.Marked (Note.Backed K) := by
  induction sts generalizing p with
  | nil =>
    cases h
    exact hp
  | cons st sts ih =>
    obtain ⟨⟨c, hc, rfl⟩, hrest⟩ := List.forall_mem_cons.mp hsts
    have hsame := fst_prepareOwn_of_ne (S := S) directive p hc
    have hown : ∀ q, (S.prepareOwn directive p c).2 = .ok q →
        ∀ a ∈ q.args, a.Marked (Note.Backed K) := fun q hq => hS.prepareOwn hintact hc hp hq
    rw [prepare, prepareIn] at h
    cases hr : S.prepareOwn directive p c with
    | mk S₁ r =>
      rw [hr] at h hsame hown
      obtain rfl : S₁ = S := hsame
      cases r with
      | error f => cases h
      | ok q => exact ih hrest (hown q rfl) h

/-- **Preparing arguments** writes notes of the names that are replaced. -/
theorem Backed.prepare (hS : S.Backed K) (hintact : S.Intact)
    (hd : ∀ a ∈ d.args, a.Marked (Note.Backed K))
    (hK : ∀ x u, (S.named d).aliases.current.get? x = some u → K x u.erase) {p : Prepared}
    (h : (S.prepare d.name ⟨d.args, false⟩ S.order).2 = .ok p) :
    ∀ a ∈ p.args, a.Marked (Note.Backed K) := by
  have hnamed := hS.named hintact hd
  have hargs : ∀ a ∈ (nameLeading S.aliases d.name d.args).2, a.Marked (Note.Backed K) := by
    rw [nameLeading]
    split
    · split
      · rename_i hleading
        exact fun a ha => hd a ((mem_of_leadingName? hleading).2 ha)
      · exact hd
    · exact hd
  have horder : initial.order =
      .own .alias :: [Component.chain, .functorial, .numeral, .goal].map Station.own := rfl
  rw [hintact.order, horder, Session.prepare] at h
  refine hnamed.prepare_of_ne (hintact.named d) (fun st hst => ?_) ?_ h
  · obtain ⟨c, hc, rfl⟩ := List.mem_map.mp hst
    exact ⟨c, by rintro rfl; simp at hc, rfl⟩
  · have hcurrent := hnamed.aliases _ (hintact.named d).aliases.current_mem
    exact Backed.expandNames hcurrent hK d.name hargs

/-! ### Carrying out a directive -/

theorem Performed.backed {v : Verb} (h : Performed S v args S') (hS : S.Backed K)
    (hintact : S.Intact) (hargs : ∀ a ∈ args, a.Marked (Note.Backed K)) : S'.Backed K := by
  cases h with
  | stay => exact hS
  | name ht =>
    have hcurrent := hS.aliases _ hintact.aliases.current_mem
    exact { hS with
      aliases := List.forall_mem_cons.mpr ⟨hcurrent.define _ (hargs _ ht), hS.aliases⟩ }
  | chain hc =>
    refine { hS with chain := List.forall_mem_cons.mpr ⟨fun c hcurrent => ?_, hS.chain⟩ }
    rcases hc c hcurrent with harg | ⟨c₀, symbol, rule, hc₀, hrule, hextend⟩
    · exact hargs _ harg
    · have hbuilt := hS.chain _ hintact.chain.current_mem c₀ hc₀
      have hrule := hargs rule hrule
      rw [hextend, Chain.extend]
      split
      · exact Expr.marked_pair.mpr ⟨Note.backed_default, hbuilt, hrule⟩
      · exact Expr.marked_pair.mpr
          ⟨Note.backed_default, hbuilt.identity Note.backed_default _, hrule⟩
  | register hf =>
    have hcurrent := hS.functorials _ hintact.functorials.current_mem
    exact { hS with
      functorials := List.forall_mem_cons.mpr ⟨hcurrent.register (hargs _ hf), hS.functorials⟩ }
  | move h =>
    have hcurrent := hS.goals _ hintact.goals.current_mem
    exact { hS with goals := List.forall_mem_cons.mpr ⟨hcurrent.next hargs h, hS.goals⟩ }

/-- **Carrying out a directive**: the notes that are kept afterwards are backed, if those that were
kept before are, and the names that the directive replaces stand for what they are said to. -/
theorem Backed.process (hS : S.Backed K) (hintact : S.Intact)
    (hd : ∀ a ∈ d.args, a.Marked (Note.Backed K))
    (hK : ∀ x u, (S.named d).aliases.current.get? x = some u → K x u.erase) :
    (S.process d).1.Backed K := by
  have hnamed := hS.named hintact hd
  rcases process_cases hintact.order d with heq | ⟨v, p, handled, hp, heq⟩
  · rw [heq]
    exact hnamed
  · have hargs := hS.prepare hintact hd hK hp
    have hperformed := (performed_perform (hintact.named d).chainsPremises v p.args).backed
      hnamed (hintact.named d) hargs
    rw [heq]
    exact { hperformed with }

end Session

end RuleProver
