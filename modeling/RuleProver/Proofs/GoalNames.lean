import RuleProver.Proofs.Grammar
import RuleProver.Proofs.KeptNames
import RuleProver.Proofs.NameNotes
import RuleProver.Proofs.ShownNames

/-!
# Names that are shown in goals

What is read has no notes of names. They are written when names are replaced, and at that moment a
name stands for what the note says. So a part of an open goal that is shown by a name is what the
name stood for at some moment of the run. It still is, unless the name was given again or what it
stood for was taken back since; the note does not follow such changes, and then the goal is shown by
a name that stands for something else.

## Main definitions

* `Prover.Meant` — a name stood for an expression at some moment of a journal
* `Prover.Means` — a name stands for an object now

## Main results

* `Directive.unnoted_of_parse` — what is read has no notes of names
* `Prover.backed_replay` — every note that is kept says what was so at some moment
* `Prover.shown_name_meant` — what the names are that goals are shown by
* `Prover.goal_misnamed` — a goal that is shown by a name that stands for something else
-/

namespace RuleProver

/-! ## Reading -/

theorem Level.Joins.marked {p : Note → Prop} (hp : p default) {t : Token} {lv : Level}
    {join : Object → Object → Object} (ht : Joins t lv join) {a b : Object} (ha : a.Marked p)
    (hb : b.Marked p) : (join a b).Marked p := by
  cases ht <;> exact Expr.marked_pair.mpr ⟨hp, ha, hb⟩

/-- What phrases stand for has only default marks. -/
theorem Phrase.DerivesList.marked {p : Note → Prop} (hp : p default) {ts : List Token}
    {args : List Object} (h : DerivesList ts args) : ∀ a ∈ args, a.Marked p := by
  -- one case for each production of the grammar
  refine @DerivesList.rec (fun _ _ a _ => a.Marked p) (fun _ as _ => ∀ a ∈ as, a.Marked p)
    ?operand ?joined ?const ?call ?hole ?group ?one ?more ts args h
  case operand =>
    intro lv ts a _ ha
    exact ha
  case joined =>
    intro lv ts us t a b join _ ht _ ha hb
    exact ht.marked hp ha hb
  case const =>
    intro t _
    exact Expr.marked_node.mpr ⟨hp, nofun⟩
  case call =>
    intro t op cl ts as _ _ _ _ has
    exact Expr.marked_node.mpr ⟨hp, has⟩
  case hole =>
    intro t _
    exact Expr.marked_hole.mpr hp
  case group =>
    intro op cl ts a _ _ _ ha
    exact ha
  case one =>
    intro ts a _ ha
    exact List.forall_mem_singleton.mpr ha
  case more =>
    intro t ts us a as _ _ _ ha has
    exact List.forall_mem_cons.mpr ⟨ha, has⟩

/-- **What is read has no notes of names.** -/
theorem Directive.unnoted_of_parse {line : String} {d : Directive} (h : parse line = .ok (some d)) :
    ∀ a ∈ d.args, a.Marked fun m => m.expandedFrom = none := by
  unfold parse at h
  split at h
  · cases h
  · obtain ⟨ts, -, h⟩ := bind_eq_ok_iff.mp h
    obtain ⟨d', hread, heq⟩ := map_eq_ok_iff.mp h
    cases heq
    unfold readAll at hread
    split at hread
    · cases hread
    · rename_i d hread'
      cases hread
      cases derives_of_read hread' with
      | alone => nofun
      | applied _ hargs => exact hargs.marked (p := fun m => m.expandedFrom = none) rfl
    · cases hread

/-- The directives of a task have been read from lines. -/
theorem Carries.exists_parse [HoleOrder] {fs : FileSystem} {task : Task} {P P' : Prover}
    {es : List Event}
    {r : Except Fault Answer} (h : Carries fs task P es P' r) {d : Directive} {ending : Ending}
    (hd : .direct d ending ∈ es) : ∃ line, Directive.parse line = .ok (some d) := by
  induction h with
  | unreadable | idle | unnamed | nameless | unresolved | again | circular | missing | noMore =>
    cases hd
  | @direct line _ d' hparse =>
    cases List.mem_singleton.mp hd
    exact ⟨line, hparse⟩
  | imports _ _ _ ih | stop _ _ ih | fault _ ih => exact ih hd
  | completed _ _ _ ih | refused _ _ _ ih | interrupted _ _ ih =>
    refine ih ?_
    simpa using hd
  | next _ _ _ ih ih' => exact (List.mem_append.mp hd).elim ih ih'

theorem Runs.exists_parse [HoleOrder] {P₀ P : Prover} {es : List Event} (h : Runs P₀ es P)
    {d : Directive} {ending : Ending} (hd : .direct d ending ∈ es) :
    ∃ line, Directive.parse line = .ok (some d) := by
  induction h with
  | start => cases hd
  | line _ hline ih => exact (List.mem_append.mp hd).elim ih hline.exists_parse
  | undo _ ih | mark _ _ ih | rollback _ _ ih =>
    refine ih ?_
    simpa using hd

/-! ## Notes tell what was so -/

/-- Decimal notation hands marks on. -/
theorem Expr.Marked.toDecimals {α : Type} [Inhabited α] {p : α → Prop} {t : Expr α}
    (ht : t.Marked p) : t.toDecimals.Marked p := by
  induction t with
  | hole m x =>
    rw [toDecimals_hole]
    exact ht
  | node m h cs ih =>
    obtain ⟨hm, hcs⟩ := marked_node.mp ht
    cases hn : (Expr.node m h cs).successorDepth? with
    | some n =>
      rw [toDecimals_of_depth hn]
      exact marked_node.mpr ⟨hm, nofun⟩
    | none =>
      rw [toDecimals_node hn, marked_node, List.forall_mem_map]
      exact ⟨hm, fun c hc => ih c hc (hcs c hc)⟩

namespace Prover

variable {P : Prover} {es : List Event} {n : String} {form : Expr Unit} {x : Object}

/-- At some moment of a journal, a name stood for an object of a form. -/
def Meant [HoleOrder] (P : Prover) (es : List Event) (n : String) (form : Expr Unit) : Prop :=
  ∃ before after u, es = before ++ after ∧
    (P.replay before).session.aliases.current.get? n = some u ∧ u.erase = form

theorem Meant.append [HoleOrder] (h : P.Meant es n form) (es' : List Event) :
    P.Meant (es ++ es') n form := by
  obtain ⟨before, after, u, rfl, hu, hform⟩ := h
  exact ⟨before, after ++ es', u, List.append_assoc .., hu, hform⟩

/-- **Every note that is kept says what was so at some moment.** -/
theorem backed_replay [HoleOrder] (hP : P.session.Intact) (hstart : P.session.Backed (P.Meant []))
    (hes : ∀ d ending, .direct d ending ∈ es →
      ∀ a ∈ d.args, a.Marked fun m => m.expandedFrom = none) :
    (P.replay es).session.Backed (P.Meant es) := by
  induction es using List.reverseRecOn with
  | nil => exact hstart
  | append_singleton es e ih =>
    have hQ := intact_replay hP es
    have hbefore := (ih fun d ending hd => hes d ending (List.mem_append_left _ hd)).mono
      fun name form h => h.append [e]
    rw [replay_append]
    by_cases he : ∃ d ending, e = .direct d ending
    · obtain ⟨d, ending, rfl⟩ := he
      have hargs := hes d ending (List.mem_append_right _ List.mem_cons_self)
      refine hbefore.process hQ (fun a ha => (hargs a ha).mono fun m hm =>
        Note.backed_of_expandedFrom hm) fun x u hu => ?_
      -- the names that the directive replaces stand for this before it, or else after it
      by_cases hdefine : d.name = "Define"
      · have hnamed : (P.replay es).session.named d = (P.replay es).session := by
          refine Session.named_of_not_givesName _ fun hgives => ?_
          have hname := hgives.1
          rw [hdefine] at hname
          exact absurd hname (by decide)
        rw [hnamed] at hu
        exact ⟨es, [.direct d ending], u, rfl, hu, rfl⟩
      · refine ⟨es ++ [.direct d ending], [], u, (List.append_nil _).symm, ?_, rfl⟩
        rw [← Session.aliases_process_of_ne hQ hdefine] at hu
        rw [replay_append]
        exact hu
    · exact hbefore.of_suffix (suffix_onEvent hQ fun d ending h => he ⟨d, ending, h⟩)

/-! ## What names stand for in the end -/

/-- A name stands for an object. -/
def Means (P : Prover) (n : String) (x : Object) : Prop :=
  ∃ u, P.session.aliases.current.get? n = some u ∧ u.same x = true

/-- **The names that goals are shown by.** In what is to be built for an open goal, every part that
is shown by a name is what the name stood for at some moment of the run. If the name has been left
alone since, it still stands for this part. -/
theorem shown_name_meant [HoleOrder] {base : String} {g t : Object}
    (hrun : Runs (initial base) es P)
    (hg : g ∈ P.session.goals.current.goals) (ht : g.goalTerm? = some t)
    (hx : x ∈ t.toDecimals.parts) (hn : Object.restoredName? x = some n) :
    ∃ before after, es = before ++ after ∧ ((initial base).replay before).Means n x ∧
      (((initial base).replay before).LeavesAlone after n → P.Means n x) := by
  have hintact : P.session.Intact := hrun.replay_eq ▸ intact_replay Session.intact_initial es
  have hbacked : P.session.Backed ((initial base).Meant es) := by
    rw [← hrun.replay_eq]
    refine backed_replay Session.intact_initial Session.backed_initial fun d ending hd => ?_
    obtain ⟨line, hparse⟩ := hrun.exists_parse hd
    exact Directive.unnoted_of_parse hparse
  -- the note of the part says what the name stood for
  have hgoal := (hbacked.goals _ hintact.goals.current_mem).of_mem_goals hg
  have hnote := (Object.marked_goalTerm? hgoal ht).toDecimals x hx
  obtain ⟨form, hfrom, hsame⟩ := Object.restoredName?_eq_some_iff.mp hn
  obtain ⟨before, after, u, rfl, hu, rfl⟩ := hnote n form hfrom
  have hux : u.same x = true := by
    rw [Expr.same_iff, Expr.erase_unit] at hsame
    exact (Expr.same_iff u x).mpr hsame.symm
  refine ⟨before, after, rfl, ⟨u, hu, hux⟩, fun hafter => ⟨u, ?_, hux⟩⟩
  rw [← hrun.replay_eq, replay_append,
    get?_replay (intact_replay Session.intact_initial before) hafter]
  exact hu

/-! ### A name that is given again -/

/-- The object `x`, put in place of the name `foo`. -/
def calledFoo : Object := Object.namedBy "foo" (.const "x")

/-- A journal in which `foo` stands for `x` when a goal is stated. -/
def statedJournal : List Event :=
  [.direct ⟨"Define", [.const "foo", .const "x"]⟩ .succeeded,
    .direct ⟨"Goal", [.rule (.const "foo") "=>" (.const "y")]⟩ .succeeded]

theorem parse_define_foo : Directive.parse "Define foo, x" =
    .ok (some ⟨"Define", [.const "foo", .const "x"]⟩) :=
  Directive.parse_of_readAll
    [⟨.symbol, "Define", 0⟩, ⟨.symbol, "foo", 7⟩, ⟨.comma, ",", 10⟩, ⟨.symbol, "x", 12⟩]
    (by cbv) (by cbv) (by cbv)

theorem parse_goal_foo : Directive.parse "Goal foo => y" =
    .ok (some ⟨"Goal", [.rule (.const "foo") "=>" (.const "y")]⟩) :=
  Directive.parse_of_readAll
    [⟨.symbol, "Goal", 0⟩, ⟨.symbol, "foo", 5⟩, ⟨.symbol, "=>", 9⟩, ⟨.symbol, "y", 12⟩]
    (by cbv) (by cbv) (by cbv)

theorem parse_redefine_foo : Directive.parse "Define foo, z" =
    .ok (some ⟨"Define", [.const "foo", .const "z"]⟩) :=
  Directive.parse_of_readAll
    [⟨.symbol, "Define", 0⟩, ⟨.symbol, "foo", 7⟩, ⟨.comma, ",", 10⟩, ⟨.symbol, "z", 12⟩]
    (by cbv) (by cbv) (by cbv)

theorem runs_stated : Runs (initial "") statedJournal ((initial "").replay statedJournal) :=
  (Runs.start.direct parse_define_foo (by decide) rfl).direct parse_goal_foo (by decide) rfl

/-- The goal that is stated. -/
def statedGoal : Object :=
  .node (.mk none (some (some "=>", .rule calledFoo "=>" (.const "y")))) .goal
    [.rule calledFoo "=>" (.const "y")]

theorem calledFoo_mem : calledFoo ∈
    (Expr.rule calledFoo "=>" (.const "y") : Object).toDecimals.parts :=
  List.mem_cons_of_mem _ List.mem_cons_self

theorem restoredName?_calledFoo : Object.restoredName? calledFoo = some "foo" := rfl

/-- The goal is shown by a name that stood for its part when it was stated. -/
theorem shown_name_meant_foo :
    Runs (initial "") statedJournal ((initial "").replay statedJournal) ∧
      statedGoal ∈ ((initial "").replay statedJournal).session.goals.current.goals ∧
      Object.restoredName? calledFoo = some "foo" ∧
      ∃ before after, statedJournal = before ++ after ∧
        ((initial "").replay before).Means "foo" calledFoo ∧
        (((initial "").replay before).LeavesAlone after "foo" →
          ((initial "").replay statedJournal).Means "foo" calledFoo) := by
  have hg : statedGoal ∈ ((initial "").replay statedJournal).session.goals.current.goals :=
    List.mem_cons_self
  exact ⟨runs_stated, hg, restoredName?_calledFoo,
    shown_name_meant runs_stated hg rfl calledFoo_mem restoredName?_calledFoo⟩

/-- When the name is given again, the goal is still shown by it. -/
theorem goal_misnamed :
    ∃ es P t, Runs (initial "") es P ∧ statedGoal ∈ P.session.goals.current.goals ∧
      statedGoal.goalTerm? = some t ∧ calledFoo ∈ t.toDecimals.parts ∧
      Object.restoredName? calledFoo = some "foo" ∧ ¬ P.Means "foo" calledFoo := by
  have hrun := runs_stated.direct parse_redefine_foo (by decide) rfl
  refine ⟨_, _, _, hrun, List.mem_cons_self, rfl, calledFoo_mem, restoredName?_calledFoo, ?_⟩
  rintro ⟨u, hu, hsame⟩
  cases hu
  cases hsame

end Prover

end RuleProver
