import RuleProver.Proofs.ProofRun

/-!
# `Use` with positions

`Use rule, p₁, …, pₙ` applies a rule at a position inside the term that a chain has reached. This
takes a rule, positions that are numbers, a path that stays inside the term, and a functorial rule
for every step of the path (`Functorials.Unliftable` says that one of these is missing). Without
them the rule should not be used at all. But all that is known when the directive is carried out is
the rule, and it is used as it is: after `Start A` the directive `Use A => B, 0` leads to `B`,
though `A` has no arguments (`use_at_nowhere`).

So a directive that cannot be carried out does what the directive without its positions does. It
leaves the chain alone exactly when that one fails, or when a position breaks off
(`positional_use_fails_iff`).

## Main definitions

* `Functorials.Registered` — there is a functorial rule for every step of a path
* `Functorials.Unliftable` — a rule cannot be lifted to the positions given

## Main results

* `Session.process_use_congr` — a session carries out what is left of `Use` once rules are lifted
* `Session.chain_process_use_iff` — `Use` moves the chain exactly when it succeeds
* `Session.positional_use_fails_iff` — when `Use` fails at positions it cannot reach
-/

namespace RuleProver

namespace Functorials

variable {F : Functorials} {c? : Option Chain} {rule : Object} {positions : List Object}

/-! ## What it takes to lift a rule -/

theorem walk_cons {t : Object} (i : Nat) (path : List Nat) :
    walk t (i :: path) = t.children[i]?.bind fun c => (walk c path).map ((t.handle, i) :: ·) := by
  rw [walk]
  cases t.children[i]? with
  | none => rfl
  | some c =>
    cases hwalk : walk c path with
    | none => simp [hwalk]
    | some steps => simp [hwalk]

theorem walk_eq_none_iff {t : Object} {path : List Nat} :
    walk t path = none ↔ t.at? path = none := by
  induction path generalizing t with
  | nil => simp [walk, Expr.at?]
  | cons i path ih =>
    rw [walk_cons, Expr.at?]
    cases t.children[i]? with
    | none => simp
    | some c => simpa using ih

/-- For every step, given innermost first, there is a functorial rule for the symbol that the steps
before have led to. -/
def Registered (F : Functorials) : String → List (Option String × Nat) → Prop
  | _, [] => True
  | s, (name, i) :: steps =>
    ∃ n f, name = some n ∧ F.get? s n i = some f ∧ F.Registered f.outer steps

theorem registered_of_lift {s : String} {steps : List (Option String × Nat)} {u : Object}
    (h : F.lift rule s steps = some u) : F.Registered s steps := by
  induction steps generalizing rule s with
  | nil => trivial
  | cons step steps ih =>
    obtain ⟨name, i⟩ := step
    obtain ⟨n, hn, h⟩ := Option.bind_eq_some_iff.mp h
    obtain ⟨f, hf, h⟩ := Option.bind_eq_some_iff.mp h
    exact ⟨n, f, hn, hf, ih h⟩

/-- The positions are numbers, and they make up a path. -/
def Spells (positions : List Object) (path : List Nat) : Prop :=
  List.Forall₂ (fun p n => p.integer? = .ok (some n)) positions path

theorem spells_of_readPath {path : List Nat} (h : readPath positions = .ok (some path)) :
    Spells positions path := by
  induction positions generalizing path with
  | nil =>
    cases h
    exact .nil
  | cons p positions ih =>
    obtain ⟨n?, hn, h⟩ := bind_eq_ok_iff.mp h
    cases n? with
    | none => cases h
    | some n =>
      obtain ⟨path?, hpath, h⟩ := bind_eq_ok_iff.mp h
      obtain ⟨path', rfl, rfl⟩ := Option.map_eq_some_iff.mp (Except.ok.inj h)
      exact .cons hn (ih hpath)

theorem Spells.exists_number {path : List Nat} (h : Spells positions path) {p : Object}
    (hp : p ∈ positions) : ∃ n, p.integer? = .ok (some n) := by
  induction h with
  | nil => cases hp
  | cons hn _ ih =>
    rcases List.mem_cons.mp hp with rfl | hp
    · exact ⟨_, hn⟩
    · exact ih hp

theorem Spells.unique {path path' : List Nat} (h : Spells positions path)
    (h' : Spells positions path') : path = path' := by
  refine List.right_unique_forall₂' (fun p n n' hn hn' => ?_) h h'
  rw [hn] at hn'
  cases hn'
  rfl

/-- A rule cannot be lifted to the positions given: one of them is no number, what is to be lifted
is no rule, the path leads out of the term that the chain has reached, or a step of the path has no
functorial rule. -/
inductive Unliftable (F : Functorials) (c? : Option Chain) (rule : Object)
    (positions : List Object) : Prop
  | noNumber (p : Object) (mem : p ∈ positions) (noNumber : ∀ n, p.integer? ≠ .ok (some n))
  | noRule (noRule : ∀ m s l r, rule ≠ .node m (.rule s) [l, r])
  | outside (c : Chain) (path : List Nat) (chain : c? = some c) (spells : Spells positions path)
      (outside : (reached c).at? path = none)
  | unregistered (c : Chain) (path : List Nat) (chain : c? = some c)
      (spells : Spells positions path) (m : Note) (s : String) (l r : Object)
      (isRule : rule = .node m (.rule s) [l, r]) (steps : List (Option String × Nat))
      (walked : walk (reached c) path = some steps) (unregistered : ¬ F.Registered s steps.reverse)

theorem Unliftable.lifted?_eq_none (h : F.Unliftable c? rule positions) {path : List Nat}
    (hpath : readPath positions = .ok (some path)) : F.lifted? c? rule path = none := by
  have hspells := spells_of_readPath hpath
  by_contra hsome
  obtain ⟨u, hu⟩ := Option.ne_none_iff_exists'.mp hsome
  obtain ⟨c, hc, hu⟩ := Option.bind_eq_some_iff.mp hu
  split at hu
  · rename_i s l r
    obtain ⟨steps, hwalk, hlift⟩ := Option.bind_eq_some_iff.mp hu
    cases h with
    | noNumber p mem noNumber =>
      obtain ⟨n, hn⟩ := hspells.exists_number mem
      exact noNumber n hn
    | noRule noRule => exact noRule _ _ _ _ rfl
    | outside c' path' chain spells outside =>
      obtain rfl := Option.some.inj (hc.symm.trans chain)
      obtain rfl := hspells.unique spells
      rw [walk_eq_none_iff.mpr outside] at hwalk
      cases hwalk
    | unregistered c' path' chain spells m' s' l' r' isRule steps' walked unregistered =>
      obtain rfl := Option.some.inj (hc.symm.trans chain)
      obtain rfl := hspells.unique spells
      cases isRule
      rw [hwalk] at walked
      cases walked
      exact unregistered (registered_of_lift hlift)
  · cases hu

/-- A rule that cannot be lifted is used as it is. -/
theorem Unliftable.prepareUse_eq {p : Object} {ps : List Object}
    (h : F.Unliftable c? rule (p :: ps)) {path? : Option (List Nat)}
    (hpath : readPath (p :: ps) = .ok path?) :
    F.prepareUse c? (rule :: p :: ps) = .ok [rule] := by
  rw [prepareUse, hpath]
  · cases path? with
    | none => rfl
    | some path =>
      have hnone := h.lifted?_eq_none hpath
      simp [bind, Except.bind, hnone, pure, Except.pure]
  · simp

theorem prepareUse_of_readPath_error {p : Object} {ps : List Object} {f : Fault}
    (h : readPath (p :: ps) = .error f) : F.prepareUse c? (rule :: p :: ps) = .error f := by
  rw [prepareUse, h]
  · rfl
  · simp

end Functorials

namespace Session

variable {S : Session} {rule p : Object} {ps : List Object}

/-! ## Carrying out `Use` -/

theorem prepareNames_use (h : History Aliases) (args : List Object) :
    prepareNames h "Use" args = (h, h.current.expandAll args) := by
  have hexpand : expandNames h.current "Use" args = h.current.expandAll args := by
    cases args with
    | nil => rfl
    | cons arg args => rfl
  rw [← hexpand]
  rfl

/-- What is left of the preparation of `Use` once its rule has been lifted. -/
def prepareLifted [HoleOrder] (S : Session) (args : List Object) : Except Fault Prepared := do
  let args ← Expr.toSuccessorsAll args
  prepareWarning S.goals.current "Use" ⟨args, false⟩

/-- A session with its components in their standard order puts objects in place of names, lifts the
rule, and does the rest. None of this changes the session. -/
theorem prepare_use [HoleOrder] (hS : S.order = initial.order) (args : List Object) :
    S.prepare "Use" ⟨args, false⟩ S.order =
      (S, S.functorials.current.prepareUse S.chain.current (S.aliases.current.expandAll args) >>=
        S.prepareLifted) := by
  have horder : initial.order = standardOrder.map .own := rfl
  rw [hS, horder]
  simp only [standardOrder, List.map_cons, List.map_nil, prepare, prepareIn, prepareOwn,
    prepareNames_use, prepareRule, prepareNumerals, if_pos,
    if_neg (by decide : ¬ "Use" = "Done")]
  cases S.functorials.current.prepareUse S.chain.current (S.aliases.current.expandAll args) with
  | error f => rfl
  | ok args' =>
    dsimp only [prepareLifted, Except.map, bind, Except.bind]
    cases Expr.toSuccessorsAll args' with
    | error f => rfl
    | ok args'' =>
      dsimp only
      cases prepareWarning S.goals.current "Use" ⟨args'', false⟩ with
      | error f => rfl
      | ok p => rfl

/-- **`Use` depends on its arguments only through what they are lifted to.** -/
theorem process_use_congr [HoleOrder] (hS : S.order = initial.order) {args args' : List Object}
    (h : S.functorials.current.prepareUse S.chain.current (S.aliases.current.expandAll args) =
      S.functorials.current.prepareUse S.chain.current (S.aliases.current.expandAll args')) :
    S.process ⟨"Use", args⟩ = S.process ⟨"Use", args'⟩ := by
  rw [process, process]
  dsimp only
  rw [prepare_use hS, prepare_use hS, h]

theorem process_use_of_error [HoleOrder] (hS : S.order = initial.order) {args : List Object}
    {f : Fault}
    (h : S.functorials.current.prepareUse S.chain.current (S.aliases.current.expandAll args) =
      .error f) : S.process ⟨"Use", args⟩ = (S, .error f) := by
  rw [process]
  dsimp only
  rw [prepare_use hS, h]
  rfl

/-- The directive reports failure or breaks off. -/
def Unsuccessful (r : Except Fault Answer) : Prop := ∀ a, r = .ok a → a.success = false

@[simp] theorem unsuccessful_error (f : Fault) : Unsuccessful (.error f) := by
  intro a ha
  cases ha

@[simp] theorem unsuccessful_ok_iff {a : Answer} : Unsuccessful (.ok a) ↔ a.success = false := by
  simp [Unsuccessful]

theorem success_of_handleUse [HoleOrder] {c? c'? : Option Chain} {a : Answer}
    (h : Chain.handleUse c? rule = .ok (a, c'?)) : a.success = c'?.isSome := by
  cases c? with
  | none =>
    cases h
    rfl
  | some c =>
    obtain ⟨outcome, -, h⟩ := bind_eq_ok_iff.mp h
    cases outcome with
    | error r =>
      cases h
      rfl
    | ok built =>
      cases h
      rfl

theorem push_chain_ne (c? : Option Chain) : S.chain.push c? ≠ S.chain := by
  intro heq
  have hlength := congrArg (fun h => h.stack.length) heq
  simp [History.push] at hlength

theorem chain_perform_use_iff [HoleOrder] (args : List Object) :
    (S.perform .use args).1.chain = S.chain ↔ Unsuccessful (S.perform .use args).2 := by
  match args with
  | [rule] =>
    rw [perform]
    cases hstep : Chain.handleUse S.chain.current rule with
    | error f => simp [moveChain, chainStep, Step.ofPair, Step.fault, Except.map]
    | ok built =>
      obtain ⟨a, c?⟩ := built
      have hsuccess := success_of_handleUse hstep
      cases c? with
      | none => simpa [moveChain, chainStep, Step.ofPair, Except.map] using hsuccess
      | some c =>
        simpa [moveChain, chainStep, Step.ofPair, Except.map, push_chain_ne] using hsuccess
  | [] => simp [perform]
  | _ :: _ :: _ => simp [perform]

/-- **`Use` moves the chain exactly when it succeeds.** -/
theorem chain_process_use_iff [HoleOrder] (hS : S.order = initial.order) (args : List Object) :
    (S.process ⟨"Use", args⟩).1.chain = S.chain ↔ Unsuccessful (S.process ⟨"Use", args⟩).2 := by
  have hverb : (Verb.ofName? "Use").filter (fun v => S.order.contains (.own v.component)) =
      some .use := by
    rw [hS]
    rfl
  rw [process]
  dsimp only
  rw [prepare_use hS]
  cases S.functorials.current.prepareUse S.chain.current (S.aliases.current.expandAll args) >>=
      S.prepareLifted with
  | error f => simp
  | ok p =>
    have hperform := chain_perform_use_iff (S := S) p.args
    dsimp only
    rw [hverb]
    dsimp only
    cases hS' : S.perform .use p.args with
    | mk S' r =>
      rw [hS'] at hperform
      cases r with
      | error f => exact hperform
      | ok a => simpa using hperform

/-! ## Positions that cannot be reached -/

/-- **A `Use` that cannot be carried out does what it does without its positions.** It leaves the
chain alone exactly when the rule itself cannot be applied to the chain, or when a position breaks
off. -/
theorem positional_use_fails_iff [HoleOrder] (hS : S.order = initial.order)
    (h : S.functorials.current.Unliftable S.chain.current (S.aliases.current.expand rule)
      ((p :: ps).map S.aliases.current.expand)) :
    ((Unsuccessful (S.process ⟨"Use", rule :: p :: ps⟩).2 ∧
        (S.process ⟨"Use", rule :: p :: ps⟩).1.chain = S.chain) ↔
      (∃ f, Functorials.readPath ((p :: ps).map S.aliases.current.expand) = .error f) ∨
        Unsuccessful (S.process ⟨"Use", [rule]⟩).2) ∧
    ∀ path?, Functorials.readPath ((p :: ps).map S.aliases.current.expand) = .ok path? →
      S.process ⟨"Use", rule :: p :: ps⟩ = S.process ⟨"Use", [rule]⟩ := by
  have hplain : ∀ path?, Functorials.readPath ((p :: ps).map S.aliases.current.expand) = .ok path? →
      S.process ⟨"Use", rule :: p :: ps⟩ = S.process ⟨"Use", [rule]⟩ := by
    intro path? hpath
    apply process_use_congr hS
    rw [Aliases.expandAll_eq_map, Aliases.expandAll_eq_map, List.map_cons, List.map_cons]
    exact h.prepareUse_eq hpath
  refine ⟨?_, hplain⟩
  rw [chain_process_use_iff hS, and_self]
  cases hpath : Functorials.readPath ((p :: ps).map S.aliases.current.expand) with
  | error f =>
    have hfault : S.process ⟨"Use", rule :: p :: ps⟩ = (S, .error f) := by
      apply process_use_of_error hS
      rw [Aliases.expandAll_eq_map, List.map_cons]
      exact Functorials.prepareUse_of_readPath_error hpath
    simp [hfault]
  | ok path? => simp [hplain path? hpath]

/-- A session that has started a chain. -/
abbrev started [HoleOrder] (t : Object) : Session := initial.run [⟨"Start", [t]⟩]

/-- In `f(a)` there is no functorial rule for `f`, and `a => b` does not apply to `f(a)`. -/
theorem positional_use_fails_of_unregistered :
    Unsuccessful ((started (.term "f" [.const "a"])).process
        ⟨"Use", [.rule (.const "a") "=>" (.const "b"), .const "0"]⟩).2 ∧
      ((started (.term "f" [.const "a"])).process
        ⟨"Use", [.rule (.const "a") "=>" (.const "b"), .const "0"]⟩).1.chain =
        (started (.term "f" [.const "a"])).chain := by
  have hunliftable : (started (.term "f" [.const "a"])).functorials.current.Unliftable
      (started (.term "f" [.const "a"])).chain.current (.rule (.const "a") "=>" (.const "b"))
      [.const "0"] := by
    refine .unregistered _ [0] rfl (.cons rfl .nil) _ "=>" _ _ rfl [(some "f", 0)] rfl ?_
    rintro ⟨n, f, -, hf, -⟩
    cases hf
  have hplain : Unsuccessful ((started (.term "f" [.const "a"])).process
      ⟨"Use", [.rule (.const "a") "=>" (.const "b")]⟩).2 := by
    intro a ha
    cases ha
    rfl
  exact (@positional_use_fails_iff (started (.term "f" [.const "a"]))
    (.rule (.const "a") "=>" (.const "b")) (.const "0") [] _ rfl hunliftable).1.mpr (.inr hplain)

/-- After `Start t` a rule that cannot be lifted to a position is used all the same, and the chain
reaches `u`. -/
def UsedAnyway [HoleOrder] (t rule p u : Object) : Prop :=
  (started t).functorials.current.Unliftable (started t).chain.current rule [p] ∧
    ∃ S a c, (started t).process ⟨"Use", [rule, p]⟩ = (S, .ok a) ∧ a.success = true ∧
      S.chain.current = some c ∧ Functorials.reached c = u

/-- `Use` at a position that is no number, of a composition, outside the term, and without a
functorial rule. -/
theorem use_at_nowhere :
    UsedAnyway (.const "A") (.rule (.const "A") "=>" (.const "B")) (.const "x") (.const "B") ∧
    UsedAnyway (.const "A") (.comp (.rule (.const "A") "=>" (.const "B"))
      (.rule (.const "B") "=>" (.const "C"))) (.const "0") (.const "C") ∧
    UsedAnyway (.const "A") (.rule (.const "A") "=>" (.const "B")) (.const "0") (.const "B") ∧
    UsedAnyway (.term "f" [.const "a"]) (.rule (.term "f" [.const "a"]) "=>" (.const "b"))
      (.const "0") (.const "b") := by
  refine ⟨⟨?_, _, _, _, rfl, rfl, rfl, rfl⟩, ⟨?_, _, _, _, rfl, rfl, rfl, rfl⟩,
    ⟨?_, _, _, _, rfl, rfl, rfl, rfl⟩, ⟨?_, _, _, _, rfl, rfl, rfl, rfl⟩⟩
  · refine .noNumber (.const "x") (by simp) fun n hn => ?_
    cases hn
  · refine .noRule fun m s l r h => ?_
    cases h
  · exact .outside _ [0] rfl (.cons rfl .nil) rfl
  · refine .unregistered _ [0] rfl (.cons rfl .nil) _ "=>" _ _ rfl [(some "f", 0)] rfl ?_
    rintro ⟨n, f, -, hf, -⟩
    cases hf

end Session

end RuleProver
