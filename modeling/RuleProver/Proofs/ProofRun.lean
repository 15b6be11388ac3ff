import RuleProver.Prover
import RuleProver.Proofs.Arguments
import RuleProver.Proofs.Grants

/-!
# Runs of a proof

A session carries out any number of directives in any order. Whatever they are, the tree of its
backward proof is an outline of something that is buildable from the axioms and what the proof takes
for granted. So a finished proof is buildable from these (`buildable_of_finished`), and from the
axioms alone if it takes nothing for granted, which can be seen from its directives
(`buildable_of_careful`).

It can be finished and not be buildable from the axioms: there is one such run for each of the ways
in which something is taken for granted (`finished_unbuildable`).

## Main definitions

* `Session.Performed` — what carrying out a directive can do to a session
* `Session.Sound` — the invariant of a run
* `Session.granted` — what a run takes for granted

## Main results

* `Chain.apply_cases` — what a rule does to a chain when it applies
* `Session.Sound.process`, `Session.Sound.run` — one directive, and any number of them
* `Prover.session_run` — a run of lines is a run of their directives
* `Prover.buildable_of_finished` — what a finished proof builds
-/

namespace RuleProver

open RuleProver.Expr (GoalFree Buildable)
open GoalState (Grant)

/-! ## Chains -/

namespace Chain

variable {c c' : Chain} {rule : Object} [HoleOrder]

/-- What a rule does to a chain when it applies: both forms of the chain are extended, if the
symbols allow it and the rule, once reduced, composes with the reduced form. -/
theorem apply_cases {answer : Result} (h : c.apply rule = .ok (.ok (c', answer))) :
    ∃ m s l r composed, rule.reduce? = some (.node m (.rule s) [l, r]) ∧
      (c.symbol? = none ∨ c.symbol? = some s) ∧
      (asRule s c.reduced).composeRules (.node m (.rule s) [l, r]) = some composed ∧
      composed.reduce? = some c'.reduced ∧ c'.unreduced = c.extend s rule := by
  obtain ⟨rule', hrule, h⟩ := bind_eq_ok_iff.mp h
  rw [Expr.reduce_eq_ok_iff] at hrule
  split at h
  · rename_i m s l r
    have hsymbol : c.symbol? = none ∨ c.symbol? = some s := by
      cases hs : c.symbol? with
      | none => exact .inl rfl
      | some s' =>
        rw [hs] at h
        dsimp only at h
        split at h
        · cases h
        · rename_i hne
          exact .inr (congrArg some (not_not.mp hne))
    cases hcomposed : (asRule s c.reduced).composeRules (.node m (.rule s) [l, r]) with
    | none => rcases hsymbol with hs | hs <;> simp [hs, hcomposed, pure, Except.pure] at h
    | some composed =>
      obtain ⟨u, hu, hbuilt⟩ : ∃ u, composed.reduce = .ok u ∧
          c' = ⟨u, c.extend s rule⟩ := by
        rcases hsymbol with hs | hs
        all_goals
          simp only [hs, hcomposed, ne_eq, not_true_eq_false, if_false] at h
          obtain ⟨u, hu, h⟩ := bind_eq_ok_iff.mp h
          cases h
          exact ⟨u, hu, rfl⟩
      subst hbuilt
      exact ⟨m, s, l, r, composed, hrule, hsymbol, hcomposed, Expr.reduce_eq_ok_iff.mp hu, rfl⟩
  · cases h

theorem exists_start_of_handleStart {t : Object} {a : Answer}
    (h : handleStart t = .ok (a, some c)) : ∃ answer, start t = .ok (c, answer) := by
  obtain ⟨⟨c', answer⟩, hstart, h⟩ := bind_eq_ok_iff.mp h
  cases h
  exact ⟨answer, hstart⟩

theorem exists_apply_of_handleUse {c? : Option Chain} {a : Answer}
    (h : handleUse c? rule = .ok (a, some c')) :
    ∃ c answer, c? = some c ∧ c.apply rule = .ok (.ok (c', answer)) := by
  cases c? with
  | none => cases h
  | some c =>
    obtain ⟨applied, happly, h⟩ := bind_eq_ok_iff.mp h
    cases applied with
    | error answer => cases h
    | ok built =>
      cases h
      exact ⟨c, _, rfl, happly⟩

end Chain

namespace Session

variable [HoleOrder] {S S' : Session} {G : List Grant} {v : Verb} {args : List Object}

/-! ## Carrying out a directive -/

/-- A chain starts from an argument, or extends the chain of the session by an argument. -/
def Continues (S : Session) (args : List Object) (c : Chain) : Prop :=
  c.unreduced ∈ args ∨ ∃ c₀ symbol rule, S.chain.current = some c₀ ∧ rule ∈ args ∧
    c.unreduced = c₀.extend symbol rule

/-- What carrying out a directive can do to a session: nothing, give a name to an argument, change
the chain, register an argument as a functorial rule, or move the goals on. -/
inductive Performed (S : Session) (v : Verb) (args : List Object) : Session → Prop
  | stay (h : S.goals.current.next? v args = none) : Performed S v args S
  | name {name : String} {t : Object} (ht : t ∈ args) (h : S.goals.current.next? v args = none) :
      Performed S v args { S with aliases := S.aliases.push (S.aliases.current.define name t) }
  | chain {c? : Option Chain} (hc : ∀ c, c? = some c → S.Continues args c)
      (h : S.goals.current.next? v args = none) :
      Performed S v args { S with chain := S.chain.push c? }
  | register {f : Functorial} (hf : f.rule ∈ args) (h : S.goals.current.next? v args = none) :
      Performed S v args
        { S with functorials := S.functorials.push (S.functorials.current.register f) }
  | move {G : GoalState} (h : S.goals.current.next? v args = some G) :
      Performed S v args { S with goals := S.goals.push G }

theorem performed_moveGoals {step : Step GoalState}
    (h : S.goals.current.next? v args = step.1) : Performed S v args (S.moveGoals step).1 := by
  rw [moveGoals]
  cases hstep : step.1 with
  | none => exact .stay (h.trans hstep)
  | some G => exact .move (h.trans hstep)

/-- A session that starts no chains from premises only moves its goals on by `Assume`. -/
theorem assume_eq (hS : S.chainsPremises = false) (arg? : Option Object) :
    S.assume arg? = S.moveGoals (S.goals.current.handleAssume arg?).1 := by
  have hpremises : ∀ step, (S.moveGoals step).1.chainsPremises = false := by
    intro step
    rw [moveGoals]
    cases step.1 <;> exact hS
  rw [assume]
  dsimp only
  rw [hpremises]
  cases (S.goals.current.handleAssume arg?).2 <;> rfl

theorem performed_chainStep {r : Except Fault (Answer × Option Chain)}
    (hr : ∀ a c, r = .ok (a, some c) → S.Continues args c)
    (h : S.goals.current.next? v args = none) :
    Performed S v args (S.moveChain (chainStep r)).1 := by
  match r with
  | .error f => exact .stay h
  | .ok (a, none) => exact .stay h
  | .ok (a, some c) =>
    refine .chain (fun c' hc' => ?_) h
    cases hc'
    exact hr a c rfl

theorem continues_of_handleStart {t : Object} (ht : t ∈ args) {a : Answer} {c : Chain}
    (h : Chain.handleStart t = .ok (a, some c)) : S.Continues args c := by
  obtain ⟨answer, hstart⟩ := Chain.exists_start_of_handleStart h
  obtain ⟨u, -, hstart⟩ := bind_eq_ok_iff.mp hstart
  cases hstart
  exact .inl ht

theorem continues_of_handleUse {rule : Object} (hrule : rule ∈ args) {a : Answer}
    {c : Chain}
    (h : Chain.handleUse S.chain.current rule = .ok (a, some c)) : S.Continues args c := by
  obtain ⟨c₀, answer, hc₀, happly⟩ := Chain.exists_apply_of_handleUse h
  obtain ⟨m, s, l, r, composed, -, -, -, -, hunreduced⟩ := Chain.apply_cases happly
  exact .inr ⟨c₀, s, rule, hc₀, hrule, hunreduced⟩

theorem performed_define {name t : Object} (ht : t ∈ args)
    (h : S.goals.current.next? v args = none) :
    Performed S v args (S.moveAliases ((S.aliases.current.handleDefine name t).2,
      .ok (S.aliases.current.handleDefine name t).1)).1 := by
  unfold Aliases.handleDefine
  split
  · exact .name ht h
  · exact .stay h

theorem performed_functorial {inner name position outer rule : Object}
    (hrule : rule ∈ args) (h : S.goals.current.next? v args = none) :
    Performed S v args (S.moveFunctorials (.ofPair
      (S.functorials.current.handleFunctorial inner name position outer rule))).1 := by
  unfold Functorials.handleFunctorial
  split
  · split
    · split
      · cases Expr.integer? position with
        | error f => exact .stay h
        | ok i? =>
          cases i? with
          | none => exact .stay h
          | some i =>
            dsimp only [bind, Except.bind]
            split
            · exact .register hrule h
            · exact .stay h
      · exact .stay h
    · exact .stay h
  · exact .stay h

theorem performed_perform (hS : S.chainsPremises = false) (v : Verb)
    (args : List Object) :
    Performed S v args (S.perform v args).1 := by
  cases v with
  | define =>
    rcases args with _ | ⟨name, _ | ⟨t, _ | ⟨_, _⟩⟩⟩
    · exact .stay rfl
    · exact .stay rfl
    · exact performed_define (by simp) rfl
    · exact .stay rfl
  | start =>
    rcases args with _ | ⟨t, _ | ⟨_, _⟩⟩
    · exact .stay rfl
    · exact performed_chainStep (fun a c => continues_of_handleStart (by simp)) rfl
    · exact .stay rfl
  | use =>
    rcases args with _ | ⟨rule, _ | ⟨_, _⟩⟩
    · exact .stay rfl
    · exact performed_chainStep (fun a c => continues_of_handleUse (by simp)) rfl
    · exact .stay rfl
  | clear =>
    cases args with
    | nil => exact .chain (fun c hc => by cases hc) rfl
    | cons => exact .stay rfl
  | verify =>
    rcases args with _ | ⟨_, _ | ⟨_, _⟩⟩
    · exact .stay rfl
    · exact .stay rfl
    · exact .stay rfl
  | reduce =>
    rcases args with _ | ⟨_, _ | ⟨_, _⟩⟩
    · exact .stay rfl
    · exact .stay rfl
    · exact .stay rfl
  | functorial =>
    rcases args with _ | ⟨inner, _ | ⟨name, _ | ⟨position, _ | ⟨outer, _ | ⟨rule, _ | ⟨_, _⟩⟩⟩⟩⟩⟩
    · exact .stay rfl
    · exact .stay rfl
    · exact .stay rfl
    · exact .stay rfl
    · exact .stay rfl
    · exact performed_functorial (by simp) rfl
    · exact .stay rfl
  | goal =>
    rcases args with _ | ⟨t, _ | ⟨_, _⟩⟩
    · exact .stay rfl
    · exact performed_moveGoals rfl
    · exact .stay rfl
  | assume =>
    rcases args with _ | ⟨t, _ | ⟨_, _⟩⟩
    · rw [perform, assume_eq hS]
      exact performed_moveGoals rfl
    · rw [perform, assume_eq hS]
      exact performed_moveGoals rfl
    · exact .stay rfl
  | leadBack =>
    rcases args with _ | ⟨rule, _ | ⟨force, _ | ⟨_, _⟩⟩⟩
    · exact .stay rfl
    · exact performed_moveGoals rfl
    · exact performed_moveGoals rfl
    · exact .stay rfl
  | done =>
    rcases args with _ | ⟨t, _ | ⟨_, _⟩⟩
    · exact performed_moveGoals rfl
    · exact performed_moveGoals rfl
    · exact .stay rfl
  | check =>
    cases args with
    | nil => exact .stay rfl
    | cons => exact .stay rfl
  | posit => exact performed_moveGoals rfl

theorem Performed.clean (h : Performed S v args S') (hS : S.Clean)
    (hargs : ∀ a ∈ args, a.GoalFree) : S'.Clean := by
  cases h with
  | stay => exact hS
  | name ht => exact { hS with aliases := hS.aliases.define _ (hargs _ ht) }
  | chain hc =>
    refine { hS with chain := fun c hcurrent => ?_ }
    rcases hc c hcurrent with harg | ⟨c₀, symbol, rule, hc₀, hrule, hextend⟩
    · exact hargs _ harg
    · rw [hextend, Chain.extend]
      split
      · exact Expr.goalFree_pair.mpr ⟨Head.noConfusion, hS.chain c₀ hc₀, hargs rule hrule⟩
      · refine Expr.goalFree_pair.mpr ⟨Head.noConfusion, ?_, hargs rule hrule⟩
        exact Expr.goalFree_pair.mpr ⟨Head.noConfusion, hS.chain c₀ hc₀, hS.chain c₀ hc₀⟩
  | register hf => exact { hS with functorials := hS.functorials.register (hargs _ hf) }
  | move => exact { hS with }

/-- The goals move on as the directive says, and stay when it is not about them. -/
theorem Performed.current (h : Performed S v args S') :
    S'.goals.current = (S.goals.current.next? v args).getD S.goals.current := by
  cases h with
  | stay h => rw [h, Option.getD_none]
  | name _ h => rw [h, Option.getD_none]
  | chain _ h => rw [h, Option.getD_none]
  | register _ h => rw [h, Option.getD_none]
  | move h =>
    rw [h, Option.getD_some]
    rfl

/-! ## Processing directives -/

/-- What a proof takes for granted after a directive that finds it taking `G` for granted. -/
def grantsAfter (S : Session) (G : List Grant) (d : Directive) : List Grant :=
  match S.prepare d.name ⟨d.args, false⟩ S.order with
  | (_, .error _) => G
  | (S, .ok p) =>
    match (Verb.ofName? d.name).filter fun v => S.order.contains (.own v.component) with
    | none => G
    | some v => S.goals.current.grantsAfter G v p.args

/-- The session is clean, and its proof is an outline of something that is buildable from the
axioms and what is taken for granted. -/
structure Sound (S : Session) (G : List Grant) : Prop where
  clean : S.Clean
  outlined : S.goals.current.Outlined G

theorem sound_initial : initial.Sound [] where
  clean := {
    order := rfl
    chainsPremises := rfl
    aliases := fun _ he => absurd he List.not_mem_nil
    chain := fun _ hc => nomatch hc
    functorials := fun _ hf => absurd hf List.not_mem_nil }
  outlined := fun _ ht => nomatch ht

omit [HoleOrder] in
theorem own_of_mem_order (hS : S.order = initial.order) : ∀ st ∈ S.order, ∃ c, st = .own c := by
  have horder : initial.order = standardOrder.map .own := rfl
  intro st hst
  rw [hS, horder] at hst
  obtain ⟨c, -, rfl⟩ := List.mem_map.mp hst
  exact ⟨c, rfl⟩

omit [HoleOrder] in
theorem Clean.own_of_mem (hS : S.Clean) : ∀ st ∈ S.order, ∃ c, st = .own c :=
  own_of_mem_order hS.order

theorem Sound.perform (hS : S.Sound G) (v : Verb) (hargs : ∀ a ∈ args, a.GoalFree) :
    (S.perform v args).1.Sound (S.goals.current.grantsAfter G v args) := by
  have hperformed := performed_perform hS.clean.chainsPremises v args
  refine ⟨hperformed.clean hS.clean hargs, ?_⟩
  rw [hperformed.current]
  cases hstep : S.goals.current.next? v args with
  | none =>
    rw [GoalState.grantsAfter, hstep]
    exact hS.outlined
  | some G' => exact hS.outlined.next hargs hstep

/-- **A directive keeps a session sound.** -/
theorem Sound.process (hS : S.Sound G) {d : Directive} (hd : ∀ a ∈ d.args, a.GoalFree) :
    (S.process d).1.Sound (S.grantsAfter G d) := by
  have hprepared := hS.clean.prepare d.name (p := ⟨d.args, false⟩) hd hS.clean.own_of_mem
  unfold Session.process Session.grantsAfter
  cases hp : S.prepare d.name ⟨d.args, false⟩ S.order with
  | mk S₁ r =>
    rw [hp] at hprepared
    have hS₁ : S₁.Sound G := ⟨hprepared.clean, by rw [hprepared.goals]; exact hS.outlined⟩
    cases r with
    | error f => exact hS₁
    | ok p =>
      dsimp only
      cases (Verb.ofName? d.name).filter fun v => S₁.order.contains (.own v.component) with
      | none => exact hS₁
      | some v =>
        have hnext := hS₁.perform v (hprepared.args p rfl)
        dsimp only
        split
        · rename_i S₂ f heq
          rw [heq] at hnext
          exact hnext
        · rename_i S₂ a heq
          rw [heq] at hnext
          exact ⟨{ hnext.clean with }, hnext.outlined⟩

/-! ## Runs -/

/-- Carries out directives one after the other. -/
def run (S : Session) (ds : List Directive) : Session := ds.foldl (fun S d => (S.process d).1) S

/-- What a proof takes for granted after directives that find it taking `G` for granted. -/
def granted (S : Session) (G : List Grant) : List Directive → List Grant
  | [] => G
  | d :: ds => (S.process d).1.granted (S.grantsAfter G d) ds

theorem Sound.run {ds : List Directive} (hS : S.Sound G)
    (hds : ∀ d ∈ ds, ∀ a ∈ d.args, a.GoalFree) : (S.run ds).Sound (S.granted G ds) := by
  induction ds generalizing S G with
  | nil => exact hS
  | cons d ds ih =>
    obtain ⟨hd, hds⟩ := List.forall_mem_cons.mp hds
    exact ih (hS.process hd) hds

end Session

namespace Directive

/-- The directive of a line, unless it asks for an import. -/
def ofLine? (line : String) : Option Directive :=
  match parse line with
  | .ok (some d) => if d.name = "Using" then none else some d
  | _ => none

theorem parse_of_ofLine? {line : String} {d : Directive} (h : ofLine? line = some d) :
    parse line = .ok (some d) := by
  unfold ofLine? at h
  split at h
  · rename_i d' hparse
    split at h
    · cases h
    · cases h
      exact hparse
  · cases h

theorem parse_of_readAll {line : String} (ts : List Token) {d : Directive}
    (hidle : isIdle (Text.trimChars line.toList) = false) (hts : Token.tokenize line = .ok ts)
    (hd : readAll ts = .ok d) : parse line = .ok (some d) := by
  rw [parse, hidle, if_neg Bool.false_ne_true, hts, Except.bind, hd, Except.map]

theorem ofLine?_of_readAll {line : String} (ts : List Token) {d : Directive}
    (hidle : isIdle (Text.trimChars line.toList) = false) (hts : Token.tokenize line = .ok ts)
    (hd : readAll ts = .ok d) (hname : d.name ≠ "Using") : ofLine? line = some d := by
  rw [ofLine?, parse_of_readAll ts hidle hts hd]
  exact if_neg hname

end Directive

namespace Prover

/-- Carries out lines one after the other. There are no files to import. -/
def run [HoleOrder] (P : Prover) (lines : List String) : Prover :=
  lines.foldl (fun P line => (process ∅ line P).1) P

/-- Without files to import, a line only carries out its directive. -/
theorem session_process [HoleOrder] (line : String) (P : Prover) :
    (process ∅ line P).1.session =
      ((Directive.ofLine? line).map fun d => (P.session.process d).1).getD P.session := by
  rw [process, runLine, Directive.ofLine?]
  cases Directive.parse line with
  | error e => rfl
  | ok d? =>
    cases d? with
    | none => rfl
    | some d =>
      dsimp only
      split
      · split
        · rfl
        · split
          · rw [importFile]
            split
            · rfl
            · split
              · rfl
              · split
                · rfl
                · split
                  · rfl
                  · rename_i htext
                    cases htext
          · rfl
      · rfl

theorem session_run [HoleOrder] (P : Prover) (lines : List String) :
    (P.run lines).session = P.session.run (lines.filterMap Directive.ofLine?) := by
  induction lines generalizing P with
  | nil => rfl
  | cons line lines ih =>
    rw [run, List.foldl_cons, ← run, ih, session_process, List.filterMap_cons]
    cases Directive.ofLine? line with
    | none => rfl
    | some d => rfl

/-- The state of the backward proof. -/
abbrev goals (P : Prover) : GoalState := P.session.goals.current

/-- What the proof takes for granted after lines from a new prover. -/
def granted [HoleOrder] (lines : List String) : List Grant :=
  Session.initial.granted [] (lines.filterMap Directive.ofLine?)

/-- **What a finished proof builds.** After any lines from a new prover, a tree without open goals
is buildable for `=>` from the axioms and what has been taken for granted since the last goal was
stated, and so from the axioms alone when nothing has. -/
theorem buildable_of_finished [HoleOrder] (base : String) (lines : List String) {t : Object}
    (htree : ((initial base).run lines).goals.tree = some t) (hfinished : t.openGoals = []) :
    Buildable (.addAll [] (((initial base).run lines).goals.axioms ++ granted lines))
        (some "=>") t ∧
      (granted lines = [] →
        Buildable (.addAll [] ((initial base).run lines).goals.axioms) (some "=>") t) := by
  have hsound : ((initial base).run lines).session.Sound (granted lines) := by
    rw [session_run]
    refine Session.sound_initial.run fun d hd => ?_
    obtain ⟨line, -, hline⟩ := List.mem_filterMap.mp hd
    exact Directive.goalFree_of_parse (Directive.parse_of_ofLine? hline)
  have hbuildable := (hsound.outlined t htree).buildable (Object.openGoals_eq_nil_iff.mp hfinished)
  refine ⟨hbuildable, fun hnone => ?_⟩
  rwa [hnone, GoalState.known, List.append_nil] at hbuildable

theorem ofLine?_goal : Directive.ofLine? "Goal A" = some ⟨"Goal", [.const "A"]⟩ :=
  Directive.ofLine?_of_readAll [⟨.symbol, "Goal", 0⟩, ⟨.symbol, "A", 5⟩]
    (by cbv) (by cbv) (by cbv) (by decide)

/-- A proof of `A` from `X` and `X => A`. -/
abbrev backwardProof : List String := ["Axiom X", "Axiom X => A", "Goal A", "By X => A", "Done"]

set_option maxRecDepth 4000 in
/-- The proof of `A` is finished without taking anything for granted. -/
theorem buildable_of_backwardProof :
    ∃ t, ((initial "").run backwardProof).goals.tree = some t ∧ t.openGoals = [] ∧
      granted backwardProof = [] ∧
      Buildable (.addAll [] ((initial "").run backwardProof).goals.axioms) (some "=>") t := by
  have hfact : Directive.ofLine? "Axiom X" = some ⟨"Axiom", [.const "X"]⟩ :=
    Directive.ofLine?_of_readAll [⟨.symbol, "Axiom", 0⟩, ⟨.symbol, "X", 6⟩]
      (by cbv) (by cbv) (by cbv) (by decide)
  have hrule : Directive.ofLine? "Axiom X => A" =
      some ⟨"Axiom", [.rule (.const "X") "=>" (.const "A")]⟩ :=
    Directive.ofLine?_of_readAll
      [⟨.symbol, "Axiom", 0⟩, ⟨.symbol, "X", 6⟩, ⟨.symbol, "=>", 8⟩, ⟨.symbol, "A", 11⟩]
      (by cbv) (by cbv) (by cbv) (by decide)
  have hby : Directive.ofLine? "By X => A" =
      some ⟨"By", [.rule (.const "X") "=>" (.const "A")]⟩ :=
    Directive.ofLine?_of_readAll
      [⟨.symbol, "By", 0⟩, ⟨.symbol, "X", 3⟩, ⟨.symbol, "=>", 5⟩, ⟨.symbol, "A", 8⟩]
      (by cbv) (by cbv) (by cbv) (by decide)
  have hdone : Directive.ofLine? "Done" = some ⟨"Done", []⟩ :=
    Directive.ofLine?_of_readAll [⟨.symbol, "Done", 0⟩] (by cbv) (by cbv) (by cbv) (by decide)
  have hlines : backwardProof.filterMap Directive.ofLine? =
      [⟨"Axiom", [.const "X"]⟩, ⟨"Axiom", [.rule (.const "X") "=>" (.const "A")]⟩,
        ⟨"Goal", [.const "A"]⟩, ⟨"By", [.rule (.const "X") "=>" (.const "A")]⟩, ⟨"Done", []⟩] := by
    simp only [List.filterMap_cons, List.filterMap_nil, hfact, hrule, ofLine?_goal, hby, hdone]
  have htree : ((initial "").run backwardProof).goals.tree =
      some (.comp (.const "X") (.comp (.rule (.const "X") "=>" (.const "A"))
        (.rule (.const "A") "=>" (.const "A")))) := by
    rw [goals, session_run, hlines]
    rfl
  have hgranted : granted backwardProof = [] := by
    rw [granted, hlines]
    rfl
  exact ⟨_, htree, rfl, hgranted, (buildable_of_finished "" _ htree rfl).2 hgranted⟩

end Prover

namespace Session

/-- A run from a new session leaves a tree without open goals that is not buildable for `=>` from
the axioms. -/
def FinishesUnbuilt [HoleOrder] (ds : List Directive) : Prop :=
  ∃ t, (initial.run ds).goals.current.tree = some t ∧ t.openGoals = [] ∧
    ¬ Buildable (.addAll [] (initial.run ds).goals.current.axioms) (some "=>") t

/-- `Use` on `f(a)` gives the candidate `(f(a) => f(a)) | (f(#x) => g(#x))`, whose check leaves
`f(a)` behind. So `Done` accepts `f(a)` as the start of a proof of `g(a)`. -/
abbrev leakingRun : List Directive :=
  [⟨"Axiom", [.rule (.term "f" [.var "x"]) "=>" (.term "g" [.var "x"])]⟩,
    ⟨"Goal", [.term "g" [.const "a"]]⟩, ⟨"Start", [.term "f" [.const "a"]]⟩,
    ⟨"Use", [.rule (.term "f" [.var "x"]) "=>" (.term "g" [.var "x"])]⟩, ⟨"Done", []⟩]

/-- `X => A` does not lead to `A => B` but to its left side, and `By` composes it with `A => B`
itself. -/
abbrev circularRun : List Directive :=
  [⟨"Axiom", [.const "X"]⟩, ⟨"Axiom", [.rule (.const "X") "=>" (.const "A")]⟩,
    ⟨"Goal", [.rule (.const "A") "=>" (.const "B")]⟩,
    ⟨"By", [.rule (.const "X") "=>" (.const "A")]⟩, ⟨"Done", []⟩]

/-- The statement `A | (A => B)` is listed as it was given, and `Done` puts its reduced form `B` in
place, which is not. -/
abbrev unreducedRun : List Directive :=
  [⟨"Axiom", [.const "=>", .comp (.const "A") (.rule (.const "A") "=>" (.const "B"))]⟩,
    ⟨"Goal", [.comp (.const "A") (.rule (.const "A") "=>" (.const "B"))]⟩, ⟨"Done", []⟩]

/-- Three finished proofs that are not buildable from the axioms, one for each way in which
something is taken for granted. -/
theorem finished_unbuildable :
    FinishesUnbuilt leakingRun ∧ FinishesUnbuilt circularRun ∧ FinishesUnbuilt unreducedRun := by
  refine ⟨⟨_, rfl, rfl, ?_⟩, ⟨_, rfl, rfl, ?_⟩, ⟨_, rfl, rfl, ?_⟩⟩
  · decide +kernel
  · decide +kernel
  · decide +kernel

end Session

end RuleProver
