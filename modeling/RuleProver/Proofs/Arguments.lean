import RuleProver.Session
import RuleProver.Proofs.ProofStep

/-!
# Arguments without open goals

An open goal cannot be written: what is read from a line has none. The components of a session
prepare the arguments of a directive from what has been read before, so no goal comes in there
either.

## Main results

* `Directive.goalFree_of_parse` — the arguments of a directive that was read have no open goals
* `Session.Clean.prepare` — neither have they after they have been prepared
-/

namespace RuleProver

open RuleProver.Expr (GoalFree)

/-! ## Reading -/

theorem Level.goalFree_of_operator? {lv : Level} {t : Token} {join : Object → Object → Object}
    (h : lv.operator? t = some join) {a b : Object} (ha : a.GoalFree) (hb : b.GoalFree) :
    (join a b).GoalFree := by
  unfold operator? at h
  split at h
  · cases h
    simp [ha, hb]
  · split at h
    · cases h
    · cases h
      simp [ha, hb]
  · split at h
    · cases h
      simp [ha, hb]
    · cases h
  · cases h
    simp [ha, hb]
  · cases h
    simp [ha, hb]
  · cases h
    simp [ha, hb]
  · cases h
    simp [ha, hb]
  · cases h

namespace Directive

/-- Reads the first operand of a level. -/
def readOperand (lv : Level) (ts : List Token) : Reading Object ts :=
  match lv.next? with
  | some lv' => readLevel lv' ts
  | none => readPrimary ts

theorem Rest.length_lt {t : Token} {more ts : List Token} (rest : Rest more)
    (h : (t :: more).length < ts.length) : rest.1.length < ts.length :=
  Nat.lt_trans rest.2 (Nat.lt_of_succ_lt h)

/-- Reads what an operator of a level joins to the operand that has been read. -/
def readJoined (lv : Level) {ts : List Token} (left : Object) : Rest ts → Reading Object ts
  | ⟨[], h⟩ => return (left, ⟨[], h⟩)
  | ⟨t :: more, h⟩ => do
    if lv.clashes t then throw (.adjacent t)
    match lv.operator? t with
    | none => return (left, ⟨t :: more, h⟩)
    | some join =>
      let (right, rest) ← readLevel lv more
      return (join left right, ⟨rest.1, Rest.length_lt rest h⟩)

theorem readLevel_eq (lv : Level) (ts : List Token) :
    readLevel lv ts = (readOperand lv ts >>= fun p => readJoined lv p.1 p.2) := by
  rw [readLevel, readOperand]
  split
  · rename_i lv' hlv
    rw [hlv]
    rfl
  · rename_i hlv
    rw [hlv]
    rfl

/-- What has been read is the operand itself, or what an operator joins to it. -/
theorem readJoined_cases {lv : Level} {ts : List Token} {left t : Object} {rest rest' : Rest ts}
    (h : readJoined lv left rest = .ok (t, rest')) :
    (t = left ∧ rest' = rest) ∨ ∃ op more join right rest'', rest.1 = op :: more ∧
      lv.operator? op = some join ∧ readLevel lv more = .ok (right, rest'') ∧
      t = join left right ∧ rest'.1 = rest''.1 := by
  unfold readJoined at h
  split at h
  · cases h
    exact .inl ⟨rfl, rfl⟩
  · rename_i op more hlt
    dsimp only at h
    split at h
    · cases h
    · split at h
      · cases h
        exact .inl ⟨rfl, rfl⟩
      · rename_i join hjoin
        obtain ⟨⟨right, rest''⟩, hright, h⟩ := bind_eq_ok_iff.mp h
        cases h
        exact .inr ⟨op, more, join, right, rest'', rfl, hjoin, hright, rfl, rfl⟩

/-- Joining operands that have no open goals. -/
theorem goalFree_of_readJoined {lv : Level} {ts : List Token} {left t : Object}
    {rest rest' : Rest ts} (h : readJoined lv left rest = .ok (t, rest')) (hleft : left.GoalFree)
    (ih : ∀ op more, (op :: more : List Token).length < ts.length →
      ∀ right rest'', readLevel lv more = .ok (right, rest'') → right.GoalFree) : t.GoalFree := by
  rcases readJoined_cases h with
    ⟨rfl, -⟩ | ⟨op, more, join, right, rest'', hrest, hop, hright, rfl, -⟩
  · exact hleft
  · have hlt : (op :: more).length < ts.length := hrest ▸ rest.2
    exact Level.goalFree_of_operator? hop hleft (ih op more hlt right rest'' hright)

/-- Nothing that is read has open goals, whichever kind of phrase it is. -/
theorem goalFree_of_read :
    (∀ lv ts, ∀ t rest, readLevel lv ts = .ok (t, rest) → t.GoalFree) ∧
    (∀ ts, ∀ t rest, readPrimary ts = .ok (t, rest) → t.GoalFree) ∧
    (∀ ts, ∀ args rest, readObjects ts = .ok (args, rest) → ∀ a ∈ args, a.GoalFree) := by
  apply readLevel.mutual_induct
  case case1 =>
    intro lv ts lv' hlv ihmore ih t rest h
    rw [readLevel_eq, readOperand, hlv, bind_eq_ok_iff] at h
    obtain ⟨⟨left, rest'⟩, hleft, h⟩ := h
    exact goalFree_of_readJoined h (ih left rest' hleft) ihmore
  case case2 =>
    intro lv ts hlv ihmore ih t rest h
    rw [readLevel_eq, readOperand, hlv, bind_eq_ok_iff] at h
    obtain ⟨⟨left, rest'⟩, hleft, h⟩ := h
    exact goalFree_of_readJoined h (ih left rest' hleft) ihmore
  case case3 =>
    intro t rest h
    rw [readPrimary] at h
    cases h
  case case4 =>
    intro f p x q t rest h
    rw [readPrimary] at h
    cases h
  case case5 =>
    intro f p x q t' more ih t rest h
    rw [readPrimary, bind_eq_ok_iff] at h
    obtain ⟨⟨args, rest₁⟩, hargs, h⟩ := h
    obtain ⟨rest₂, -, h⟩ := bind_eq_ok_iff.mp h
    cases h
    exact Expr.goalFree_node.mpr ⟨Head.noConfusion, ih args rest₁ hargs⟩
  case case6 =>
    intro f p more hclose hargs t rest h
    rw [readPrimary] at h
    · cases h
      simp
    · exact hclose
    · exact hargs
  case case7 =>
    intro x p more t rest h
    rw [readPrimary] at h
    cases h
    simp
  case case8 =>
    intro x p more ih t rest h
    rw [readPrimary, bind_eq_ok_iff] at h
    obtain ⟨⟨inner, rest₁⟩, hinner, h⟩ := h
    obtain ⟨rest₂, -, h⟩ := bind_eq_ok_iff.mp h
    cases h
    exact ih _ rest₁ hinner
  case case9 =>
    intro t' tail h₁ h₂ h₃ h₄ h₅ t rest h
    rw [readPrimary] at h
    · cases h
    all_goals assumption
  case case10 =>
    intro ts ihfirst ihmore args rest h
    rw [readObjects, bind_eq_ok_iff] at h
    obtain ⟨⟨first, rest'⟩, hfirst, h⟩ := h
    have hf : first.GoalFree := ihfirst first rest' hfirst
    dsimp only at h
    split at h
    · rename_i x p more hlt
      obtain ⟨⟨others, rest''⟩, hothers, h⟩ := bind_eq_ok_iff.mp h
      cases h
      exact List.forall_mem_cons.mpr ⟨hf, ihmore x p more hlt others rest'' hothers⟩
    · cases h
      exact List.forall_mem_cons.mpr ⟨hf, by simp⟩

theorem goalFree_of_readArguments {ts rest : List Token} {args : List Object}
    (h : readArguments ts = .ok (args, rest)) : ∀ a ∈ args, a.GoalFree := by
  unfold readArguments at h
  split at h
  · cases h
    simp
  · obtain ⟨⟨args', rest'⟩, hread, heq⟩ := map_eq_ok_iff.mp h
    cases heq
    exact goalFree_of_read.2.2 _ _ rest' hread

theorem goalFree_of_readAll {ts : List Token} {d : Directive} (h : readAll ts = .ok d) :
    ∀ a ∈ d.args, a.GoalFree := by
  unfold readAll at h
  split at h
  · cases h
  · rename_i d' hread
    cases h
    unfold read at hread
    split at hread
    · cases hread
    · split at hread
      · obtain ⟨⟨args, rest⟩, hargs, heq⟩ := map_eq_ok_iff.mp hread
        cases heq
        exact goalFree_of_readArguments hargs
      · cases hread
  · cases h

/-- **An open goal cannot be written.** -/
theorem goalFree_of_parse {line : String} {d : Directive} (h : parse line = .ok (some d)) :
    ∀ a ∈ d.args, a.GoalFree := by
  unfold parse at h
  split at h
  · cases h
  · obtain ⟨ts, -, h⟩ := bind_eq_ok_iff.mp h
    obtain ⟨d', hread, heq⟩ := map_eq_ok_iff.mp h
    cases heq
    exact goalFree_of_readAll hread

end Directive

/-! ## Preparing -/

namespace Aliases

/-- The objects that names stand for have no open goals. -/
def GoalFree (A : Aliases) : Prop := ∀ e ∈ A, e.2.GoalFree

theorem GoalFree.define {A : Aliases} (hA : A.GoalFree) (name : String) {t : Object}
    (ht : t.GoalFree) : (A.define name t).GoalFree := by
  intro e he
  rcases List.mem_append.mp he with he | he
  · exact hA e (List.mem_filter.mp he).1
  · obtain rfl := List.mem_singleton.mp he
    exact ht

theorem expandAll_eq_map (A : Aliases) (ts : List Object) : A.expandAll ts = ts.map A.expand := by
  induction ts with
  | nil => rw [expandAll, List.map_nil]
  | cons t ts ih => rw [expandAll, ih, List.map_cons]

theorem GoalFree.expand {A : Aliases} (hA : A.GoalFree) {t : Object} (ht : t.GoalFree) :
    (A.expand t).GoalFree := by
  induction t using Expr.induction_on_children with
  | hole m x =>
    rw [Aliases.expand]
    exact ht
  | node m h cs ih =>
    unfold Aliases.expand
    split
    · simp
    · split
      · rename_i t' ht'
        exact (hA _ (Assignment.mem_of_get? ht')).withMark _
      · simp
    · rename_i heq
      cases heq
      rw [Expr.goalFree_node] at ht
      rw [expandAll_eq_map, Expr.goalFree_node]
      refine ⟨ht.1, fun c' hc' => ?_⟩
      obtain ⟨c, hc, rfl⟩ := List.mem_map.mp hc'
      exact ih c hc (ht.2 c hc)

end Aliases

namespace Expr

theorem goalFree_successors {α : Type} [Inhabited α] (n : Nat) :
    (successors n : Expr α).GoalFree := by
  induction n with
  | zero => simp [successors]
  | succ n ih => simp [successors, ih]

mutual

theorem goalFree_of_toSuccessors : (t : Object) → {u : Object} → t.toSuccessors = .ok u →
    t.GoalFree → u.GoalFree
  | .hole m x, u, hu, ht => by
    rw [toSuccessors] at hu
    cases hu
    exact ht
  | .node m h cs, u, hu, ht => by
    unfold toSuccessors at hu
    split at hu
    · cases hu
      simp
    · obtain ⟨value?, -, hu⟩ := bind_eq_ok_iff.mp hu
      split at hu
      · cases hu
        exact (goalFree_successors _).withMark _
      · cases hu
        simp
    · rename_i heq
      cases heq
      obtain ⟨cs', hcs', hu⟩ := bind_eq_ok_iff.mp hu
      cases hu
      rw [goalFree_node] at ht ⊢
      exact ⟨ht.1, goalFree_of_toSuccessorsAll cs hcs' ht.2⟩

theorem goalFree_of_toSuccessorsAll : (ts : List Object) → {us : List Object} →
    toSuccessorsAll ts = .ok us → (∀ t ∈ ts, t.GoalFree) → ∀ u ∈ us, u.GoalFree
  | [], us, hus, _ => by
    rw [toSuccessorsAll] at hus
    cases hus
    simp
  | t :: ts, us, hus, hts => by
    rw [toSuccessorsAll, bind_eq_ok_iff] at hus
    obtain ⟨u, hu, hus⟩ := hus
    obtain ⟨us', hus', hus⟩ := bind_eq_ok_iff.mp hus
    cases hus
    obtain ⟨ht, hts⟩ := List.forall_mem_cons.mp hts
    exact List.forall_mem_cons.mpr
      ⟨goalFree_of_toSuccessors t hu ht, goalFree_of_toSuccessorsAll ts hus' hts⟩

end

end Expr

namespace Functorials

/-- Functorial rules without open goals. -/
def GoalFree (F : Functorials) : Prop := ∀ f ∈ F, f.rule.GoalFree

theorem GoalFree.register {F : Functorials} (hF : F.GoalFree) {f : Functorial}
    (hf : f.rule.GoalFree) : (F.register f).GoalFree := by
  intro g hg
  rcases List.mem_append.mp hg with hg | hg
  · exact hF g (List.mem_filter.mp hg).1
  · obtain rfl := List.mem_singleton.mp hg
    exact hf

theorem GoalFree.lift {F : Functorials} (hF : F.GoalFree) {rule u : Object} {s : String}
    {steps : List (Option String × Nat)} (h : F.lift rule s steps = some u)
    (hrule : rule.GoalFree) : u.GoalFree := by
  induction steps generalizing rule s with
  | nil =>
    cases h
    exact hrule
  | cons step steps ih =>
    obtain ⟨name, i⟩ := step
    obtain ⟨n, -, h⟩ := Option.bind_eq_some_iff.mp h
    obtain ⟨f, hf, h⟩ := Option.bind_eq_some_iff.mp h
    have hfree : f.rule.GoalFree := hF f (List.mem_of_find?_eq_some hf)
    exact ih h (Expr.goalFree_pair.mpr ⟨Head.noConfusion, hrule, hfree⟩)

theorem GoalFree.lifted? {F : Functorials} (hF : F.GoalFree) {c? : Option Chain} {rule u : Object}
    {path : List Nat} (h : F.lifted? c? rule path = some u) (hrule : rule.GoalFree) :
    u.GoalFree := by
  obtain ⟨c, -, h⟩ := Option.bind_eq_some_iff.mp h
  split at h
  · obtain ⟨steps, -, h⟩ := Option.bind_eq_some_iff.mp h
    exact hF.lift h hrule
  · cases h

theorem GoalFree.prepareUse {F : Functorials} (hF : F.GoalFree) {c? : Option Chain}
    {args args' : List Object} (h : F.prepareUse c? args = .ok args')
    (hargs : ∀ a ∈ args, a.GoalFree) : ∀ a ∈ args', a.GoalFree := by
  unfold Functorials.prepareUse at h
  split at h
  · cases h
  · cases h
    exact hargs
  · rename_i rule positions _
    have hrule : rule.GoalFree := hargs rule List.mem_cons_self
    obtain ⟨path?, -, h⟩ := bind_eq_ok_iff.mp h
    split at h
    · cases h
      simpa using hrule
    · rename_i path
      cases h
      rw [List.forall_mem_singleton]
      cases hlift : F.lifted? c? rule path with
      | none => exact hrule
      | some u => exact hF.lifted? hlift hrule

end Functorials

namespace Session

/-- Nothing that a session with its components in their standard order remembers for the arguments
of directives has open goals. -/
structure Clean (S : Session) : Prop where
  order : S.order = initial.order
  chainsPremises : S.chainsPremises = false
  aliases : S.aliases.current.GoalFree
  chain : ∀ c, S.chain.current = some c → c.unreduced.GoalFree
  functorials : S.functorials.current.GoalFree

variable {S S' : Session}

theorem mem_of_leadingName? {args args' : List Object} {name : String} {t : Object}
    (h : Aliases.leadingName? args = some (name, t, args')) : t ∈ args ∧ args' ⊆ args := by
  unfold Aliases.leadingName? at h
  split at h
  · split at h
    · cases h
      exact ⟨List.mem_cons_of_mem _ (List.getLast_mem _), List.subset_cons_self _ _⟩
    · cases h
  · cases h

theorem goalFree_nameLeading {h : History Aliases} (hA : h.current.GoalFree) (directive : String)
    {args : List Object} (hargs : ∀ a ∈ args, a.GoalFree) :
    (nameLeading h directive args).1.current.GoalFree ∧
      ∀ a ∈ (nameLeading h directive args).2, a.GoalFree := by
  unfold nameLeading
  split
  · split
    · rename_i name t args' heq
      obtain ⟨ht, hsub⟩ := mem_of_leadingName? heq
      exact ⟨hA.define name (hargs t ht), fun a ha => hargs a (hsub ha)⟩
    · exact ⟨hA, hargs⟩
  · exact ⟨hA, hargs⟩

theorem goalFree_expandNames {A : Aliases} (hA : A.GoalFree) (directive : String)
    {args : List Object} (hargs : ∀ a ∈ args, a.GoalFree) :
    ∀ a ∈ expandNames A directive args, a.GoalFree := by
  cases args with
  | nil => simp [expandNames]
  | cons arg args =>
    obtain ⟨harg, hargs⟩ := List.forall_mem_cons.mp hargs
    rw [expandNames, Aliases.expandAll_eq_map, List.forall_mem_cons, List.forall_mem_map]
    refine ⟨?_, fun a ha => hA.expand (hargs a ha)⟩
    split
    · exact harg
    · exact hA.expand harg

/-- What the preparation of arguments leaves behind: the goals as they were, nothing with open
goals to remember, and arguments without open goals. -/
structure Prepares (S S' : Session) (r : Except Fault Prepared) : Prop where
  clean : S'.Clean
  goals : S'.goals = S.goals
  args : ∀ p, r = .ok p → ∀ a ∈ p.args, a.GoalFree

theorem Clean.prepareOwn [HoleOrder] (hS : S.Clean) (directive : String) {p : Prepared}
    (hp : ∀ a ∈ p.args, a.GoalFree) (c : Component) :
    Prepares S (S.prepareOwn directive p c).1 (S.prepareOwn directive p c).2 := by
  match c with
  | .alias =>
    obtain ⟨hA, hargs⟩ := goalFree_nameLeading hS.aliases directive hp
    refine ⟨{ hS with aliases := hA }, rfl, ?_⟩
    rintro p' ⟨⟩
    exact goalFree_expandNames hA directive hargs
  | .chain =>
    rw [Session.prepareOwn]
    split
    · split
      · refine ⟨hS, rfl, ?_⟩
        rintro p' ⟨⟩ a ha
        obtain ⟨c, hc, rfl⟩ := Option.map_eq_some_iff.mp (Option.mem_toList.mp ha)
        exact hS.chain c hc
      · exact ⟨hS, rfl, fun p' hp' => by cases hp'⟩
    · refine ⟨hS, rfl, ?_⟩
      rintro p' ⟨⟩
      exact hp
  | .functorial =>
    refine ⟨hS, rfl, fun p' hp' => ?_⟩
    rw [Session.prepareOwn, prepareRule] at hp'
    split at hp'
    · obtain ⟨args, hargs, rfl⟩ := map_eq_ok_iff.mp hp'
      exact hS.functorials.prepareUse hargs hp
    · cases hp'
      exact hp
  | .numeral =>
    refine ⟨hS, rfl, fun p' hp' => ?_⟩
    obtain ⟨args, hargs, rfl⟩ := map_eq_ok_iff.mp hp'
    exact Expr.goalFree_of_toSuccessorsAll p.args hargs hp
  | .goal =>
    refine ⟨hS, rfl, fun p' hp' => ?_⟩
    rw [Session.prepareOwn, prepareWarning] at hp'
    split at hp'
    · split at hp'
      · obtain ⟨w, -, rfl⟩ := map_eq_ok_iff.mp hp'
        exact hp
      · cases hp'
    · cases hp'
      exact hp

/-- **Preparing arguments brings in no open goals.** -/
theorem Clean.prepare [HoleOrder] (hS : S.Clean) (directive : String) {p : Prepared}
    (hp : ∀ a ∈ p.args, a.GoalFree) {cs : List Station} (hcs : ∀ st ∈ cs, ∃ c, st = .own c) :
    Prepares S (S.prepare directive p cs).1 (S.prepare directive p cs).2 := by
  induction cs generalizing S p with
  | nil =>
    refine ⟨hS, rfl, ?_⟩
    rintro p' ⟨⟩
    exact hp
  | cons st cs ih =>
    obtain ⟨⟨c, rfl⟩, hrest⟩ := List.forall_mem_cons.mp hcs
    have hown := hS.prepareOwn directive hp c
    unfold Session.prepare Session.prepareIn
    dsimp only
    split
    · rename_i S' p' heq
      rw [heq] at hown
      have hih := ih hown.clean (hown.args p' rfl) hrest
      exact ⟨hih.clean, hih.goals.trans hown.goals, hih.args⟩
    · rename_i S' f heq
      rw [heq] at hown
      exact hown

end Session

end RuleProver
