import RuleProver.Proofs.ProofRun

/-!
# Reachable states

A prover carries out lines, which may import files, and it can be undone, marked and rolled back. In
every state that it reaches this way the components are in their standard order, and the history of
each component is anchored: its current state is the latest that has been kept, and no mark lies
below the first one. So the states that a history keeps never run out.

A directive does at most two things to a session. A leading name is given to its last argument, and
the component that it belongs to moves on by one state.

## Main definitions

* `History.Anchored`, `Session.Intact` — the invariant
* `Session.Processed` — the ways in which a directive can end
* `Session.Compares` — a relation holds between the histories of every component
* `Prover.Reachable` — the states that a prover can be brought to

## Main results

* `Session.processed` — every directive ends in one of these ways
* `Session.process_cases` — where a directive leads
* `Prover.keeps_runLine` — what directives and marks keep, lines keep
* `Prover.Reachable.intact` — the invariant holds in every reachable state
-/

namespace RuleProver

/-! ## Histories -/

theorem mem_of_lookup {ι : Type} {marks : List (String × ι)} {name : String} {i : ι}
    (h : marks.lookup name = some i) : (name, i) ∈ marks := by
  obtain ⟨before, after, hmarks, -⟩ := List.lookup_eq_some_iff.mp h
  simp [hmarks]

namespace History

variable {σ : Type} {h : History σ} {name : String} {n : Int}

/-- The current state is the latest one that has been kept, and no mark lies below the first. -/
structure Anchored (h : History σ) : Prop where
  top : h.stack.head? = some h.current
  marks : ∀ m ∈ h.marks, 0 ≤ m.2

theorem anchored_ofState (s : σ) : (ofState s).Anchored := ⟨rfl, nofun⟩

theorem Anchored.exists_past (hh : h.Anchored) : ∃ past, h.stack = h.current :: past :=
  List.head?_eq_some_iff.mp hh.top

theorem Anchored.push (hh : h.Anchored) (s : σ) : (h.push s).Anchored := ⟨rfl, hh.marks⟩

/-- **One step back takes back one step forward**, with nothing lost. -/
theorem Anchored.undo_push (hh : h.Anchored) (s : σ) : (h.push s).undo.2 = h := by
  obtain ⟨past, hpast⟩ := hh.exists_past
  cases h with
  | mk current stack marks =>
    rw [show stack = current :: past from hpast]
    rfl

theorem Anchored.undo (hh : h.Anchored) : h.undo.2.Anchored := by
  rw [History.undo]
  split
  · exact ⟨rfl, hh.marks⟩
  · exact hh

theorem Anchored.mark (hh : h.Anchored) (name : String) : (h.mark name).Anchored := by
  refine ⟨hh.top, fun m hm => ?_⟩
  obtain ⟨past, hpast⟩ := hh.exists_past
  rcases List.mem_append.mp hm with hold | hnew
  · exact hh.marks m (List.mem_of_mem_filter hold)
  · rw [List.mem_singleton.mp hnew, depth, hpast, List.length_cons]
    omega

/-- As long as a state is to be left, the stack is cut and the latest state that is left becomes the
current one. -/
theorem Anchored.keep_eq (hh : h.Anchored) {k : Nat} (hk : 0 < k) (p : Int → Bool) :
    ∃ s past, h.stack.drop (h.depth - k) = s :: past ∧
      h.keep k p = (true, ⟨s, s :: past, h.marks.filter (p ·.2)⟩) := by
  obtain ⟨past, hpast⟩ := hh.exists_past
  rw [History.keep]
  cases hdrop : h.stack.drop (h.depth - k) with
  | nil =>
    rw [List.drop_eq_nil_iff, depth, hpast, List.length_cons] at hdrop
    omega
  | cons s states => exact ⟨s, states, rfl, rfl⟩

theorem rollback_of_lookup_eq_none (hn : h.marks.lookup name = none) :
    (h.rollback name).2 = h := by
  rw [History.rollback, hn]

/-- Rolling back to a name that marks a place succeeds. -/
theorem Anchored.rollback_eq (hh : h.Anchored) (hn : h.marks.lookup name = some n) :
    ∃ s past, h.stack.drop (h.depth - (n + 1).toNat) = s :: past ∧
      h.rollback name = (some true, ⟨s, s :: past, h.marks.filter (·.2 ≤ n)⟩) := by
  have hmark : 0 ≤ n := hh.marks (name, n) (mem_of_lookup hn)
  obtain ⟨s, past, hdrop, hkeep⟩ := hh.keep_eq (k := (n + 1).toNat) (by omega) (· ≤ n)
  refine ⟨s, past, hdrop, ?_⟩
  rw [History.rollback, hn]
  dsimp only
  rw [hkeep]

theorem Anchored.rollback (hh : h.Anchored) (name : String) : (h.rollback name).2.Anchored := by
  cases hn : h.marks.lookup name with
  | none => rwa [rollback_of_lookup_eq_none hn]
  | some n =>
    obtain ⟨s, past, -, heq⟩ := hh.rollback_eq hn
    rw [heq]
    exact ⟨rfl, fun m hm => hh.marks m (List.mem_of_mem_filter hm)⟩

end History

/-! ## Sessions -/

namespace Session

variable {S S' : Session} {d : Directive} {c : Component}

/-- The components are in their standard order, and their histories are anchored. -/
structure Intact (S : Session) : Prop where
  order : S.order = initial.order
  chainsPremises : S.chainsPremises = false
  aliases : S.aliases.Anchored
  chain : S.chain.Anchored
  functorials : S.functorials.Anchored
  numerals : S.numerals.Anchored
  goals : S.goals.Anchored

theorem intact_initial : initial.Intact where
  order := rfl
  chainsPremises := rfl
  aliases := History.anchored_ofState _
  chain := History.anchored_ofState _
  functorials := History.anchored_ofState _
  numerals := History.anchored_ofState _
  goals := History.anchored_ofState _

theorem Intact.onComponent (hS : S.Intact) {f : {σ : Type} → History σ → History σ}
    (hf : ∀ {σ : Type} {h : History σ}, h.Anchored → (f h).Anchored) (c : Component) :
    (S.onComponent f c).Intact := by
  match c with
  | .alias => exact { hS with aliases := hf hS.aliases }
  | .chain => exact { hS with chain := hf hS.chain }
  | .functorial => exact { hS with functorials := hf hS.functorials }
  | .numeral => exact { hS with numerals := hf hS.numerals }
  | .goal => exact { hS with goals := hf hS.goals }

theorem Intact.foldl_onHistory {f : {σ : Type} → History σ → History σ}
    (hf : ∀ {σ : Type} {h : History σ}, h.Anchored → (f h).Anchored) {sts : List Station}
    (hsts : ∀ st ∈ sts, ∃ c, st = .own c) (hS : S.Intact) :
    (sts.foldl (fun S st => S.onHistory f st) S).Intact := by
  induction sts generalizing S with
  | nil => exact hS
  | cons st sts ih =>
    obtain ⟨⟨c, rfl⟩, hrest⟩ := List.forall_mem_cons.mp hsts
    exact ih hrest (hS.onComponent hf c)

theorem Intact.undo (hS : S.Intact) : S.undo.2.Intact := by
  rw [Session.undo]
  split
  · exact hS
  · have hS' : { S with handled := S.handled.dropLast }.Intact := { hS with }
    exact hS'.onComponent (f := fun h => h.undo.2) History.Anchored.undo _

theorem Intact.mark (hS : S.Intact) (name : String) : (S.mark name).Intact := by
  have howned := own_of_mem_order hS.order
  exact Intact.foldl_onHistory (f := (·.mark name)) (fun h => h.mark name) howned { hS with }

theorem Intact.rollback (hS : S.Intact) (name : String) : (S.rollback name).2.Intact := by
  rw [Session.rollback]
  split
  · exact hS
  · split
    · rename_i n _ _
      have howned := own_of_mem_order hS.order
      have hS' : { S with handled := S.handled.take n }.Intact := { hS with }
      have hrolled := Intact.foldl_onHistory (f := fun h => (h.rollback name).2)
        (fun h => h.rollback name) howned hS'
      exact { hrolled with }
    · exact hS

/-! ## Carrying out a directive -/

/-- One component has moved on to another state. -/
inductive Pushed (S : Session) : Component → Session → Prop
  | aliases (A : Aliases) : Pushed S .alias { S with aliases := S.aliases.push A }
  | chain (c? : Option Chain) : Pushed S .chain { S with chain := S.chain.push c? }
  | functorials (F : Functorials) :
      Pushed S .functorial { S with functorials := S.functorials.push F }
  | goals (G : GoalState) : Pushed S .goal { S with goals := S.goals.push G }

theorem Pushed.intact (h : Pushed S c S') (hS : S.Intact) : S'.Intact := by
  cases h with
  | aliases A => exact { hS with aliases := hS.aliases.push A }
  | chain c? => exact { hS with chain := hS.chain.push c? }
  | functorials F => exact { hS with functorials := hS.functorials.push F }
  | goals G => exact { hS with goals := hS.goals.push G }

/-- A step back in the history of the component takes back the move. -/
theorem Pushed.undo_eq (h : Pushed S c S') (hS : S.Intact) :
    S'.onComponent (fun h => h.undo.2) c = S := by
  cases h with
  | aliases A => rw [Session.onComponent, hS.aliases.undo_push]
  | chain c? => rw [Session.onComponent, hS.chain.undo_push]
  | functorials F => rw [Session.onComponent, hS.functorials.undo_push]
  | goals G => rw [Session.onComponent, hS.goals.undo_push]

theorem Performed.eq_or_pushed [HoleOrder] {v : Verb} {args : List Object}
    (h : Performed S v args S') :
    S' = S ∨ ∃ c, Pushed S c S' := by
  cases h with
  | stay => exact .inl rfl
  | name => exact .inr ⟨_, .aliases _⟩
  | chain => exact .inr ⟨_, .chain _⟩
  | register => exact .inr ⟨_, .functorials _⟩
  | move => exact .inr ⟨_, .goals _⟩

theorem Intact.perform [HoleOrder] (hS : S.Intact) (v : Verb) (args : List Object) :
    (S.perform v args).1.Intact := by
  rcases (performed_perform hS.chainsPremises v args).eq_or_pushed with heq | ⟨c, hpushed⟩
  · rw [heq]
    exact hS
  · exact hpushed.intact hS

/-! ## Preparing arguments -/

/-- A name comes first in a directive that allows it. -/
def GivesName (d : Directive) : Prop :=
  (d.name = "Axiom" ∨ d.name = "Functorial") ∧ (Aliases.leadingName? d.args).isSome = true

/-- The session after the leading name of a directive has been given to its last argument. -/
def named (S : Session) (d : Directive) : Session :=
  { S with aliases := (nameLeading S.aliases d.name d.args).1 }

theorem named_eq_or_pushed (S : Session) (d : Directive) :
    S.named d = S ∨ (d.name = "Axiom" ∨ d.name = "Functorial") ∧ Pushed S .alias (S.named d) := by
  rw [named, nameLeading]
  split
  · rename_i hname
    split
    · exact .inr ⟨hname, .aliases _⟩
    · exact .inl rfl
  · exact .inl rfl

theorem named_of_not_givesName (S : Session) (hd : ¬ GivesName d) : S.named d = S := by
  rw [named, nameLeading]
  split
  · rename_i hname
    split
    · rename_i hleading
      exact absurd ⟨hname, by rw [hleading, Option.isSome_some]⟩ hd
    · rfl
  · rfl

theorem Intact.named (hS : S.Intact) (d : Directive) : (S.named d).Intact := by
  rcases S.named_eq_or_pushed d with heq | ⟨-, hpushed⟩
  · rw [heq]
    exact hS
  · exact hpushed.intact hS

theorem fst_prepareOwn_of_ne [HoleOrder] (directive : String) (p : Prepared) (hc : c ≠ .alias) :
    (S.prepareOwn directive p c).1 = S := by
  match c with
  | .alias => exact absurd rfl hc
  | .chain =>
    rw [prepareOwn]
    split
    · split <;> rfl
    · rfl
  | .functorial | .numeral | .goal => rfl

theorem fst_prepare_of_ne [HoleOrder] (directive : String) (p : Prepared) {sts : List Station}
    (hsts : ∀ st ∈ sts, ∃ c, c ≠ .alias ∧ st = .own c) : (S.prepare directive p sts).1 = S := by
  induction sts generalizing p with
  | nil => rfl
  | cons st sts ih =>
    obtain ⟨⟨c, hc, rfl⟩, hrest⟩ := List.forall_mem_cons.mp hsts
    have hown := fst_prepareOwn_of_ne (S := S) directive p hc
    rw [prepare, prepareIn]
    split
    · rename_i S' p' heq
      rw [heq] at hown
      rw [show S' = S from hown]
      exact ih p' hrest
    · rename_i S' f heq
      rw [heq] at hown
      exact hown

/-- **Preparing its arguments, a directive only gives a name.** -/
theorem fst_prepare [HoleOrder] (hS : S.order = initial.order) (d : Directive) :
    (S.prepare d.name ⟨d.args, false⟩ S.order).1 = S.named d := by
  have horder : initial.order =
      .own .alias :: [Component.chain, .functorial, .numeral, .goal].map Station.own := rfl
  rw [hS, horder, prepare]
  refine fst_prepare_of_ne _ _ fun st hst => ?_
  obtain ⟨c, hc, rfl⟩ := List.mem_map.mp hst
  exact ⟨c, by rintro rfl; simp at hc, rfl⟩

/-! ## Processing a directive -/

/-- The ways in which a directive can end: its arguments cannot be prepared, no component knows it,
it breaks off, or it is handled. -/
inductive Processed [HoleOrder] (S : Session) (d : Directive) : Session × Except Fault Answer → Prop
  | unprepared (f : Fault) : Processed S d (S.named d, .error f)
  | unknown (hd : Verb.ofName? d.name = none) :
      Processed S d (S.named d, .ok (unknown d.name))
  | brokenOff {v : Verb} {args : List Object} {S' : Session} {f : Fault}
      (hd : Verb.ofName? d.name = some v) (h : (S.named d).perform v args = (S', .error f)) :
      Processed S d (S', .error f)
  | handled {v : Verb} {args : List Object} {S' : Session} {a : Answer} {results : List Result}
      (hd : Verb.ofName? d.name = some v) (h : (S.named d).perform v args = (S', .ok a)) :
      Processed S d
        ({ S' with handled := S'.handled ++ [v] }, .ok { a with results := results })

theorem contains_component (hS : S.order = initial.order) (v : Verb) :
    S.order.contains (.own v.component) = true := by
  rw [hS]
  cases v <;> decide

theorem processed [HoleOrder] (hS : S.order = initial.order) (d : Directive) :
    Processed S d (S.process d) := by
  have hnamed := fst_prepare hS d
  have horder : (S.named d).order = initial.order := hS
  rw [process]
  cases hp : S.prepare d.name ⟨d.args, false⟩ S.order with
  | mk S₁ r =>
    obtain rfl : S₁ = S.named d := by
      rw [hp] at hnamed
      exact hnamed
    cases r with
    | error f => exact .unprepared f
    | ok p =>
      dsimp only
      cases hd : Verb.ofName? d.name with
      | none => exact .unknown hd
      | some v =>
        rw [Option.filter_some, if_pos (contains_component horder v)]
        dsimp only
        split
        · exact .brokenOff hd ‹_›
        · exact .handled hd ‹_›

/-- A directive leads to where its name is given, or to where carrying it out leads with the
arguments that have been prepared. -/
theorem process_cases [HoleOrder] (hS : S.order = initial.order) (d : Directive) :
    (S.process d).1 = S.named d ∨ ∃ v p handled,
      (S.prepare d.name ⟨d.args, false⟩ S.order).2 = .ok p ∧
        (S.process d).1 = { ((S.named d).perform v p.args).1 with handled := handled } := by
  have hnamed := fst_prepare hS d
  rw [process]
  cases hp : S.prepare d.name ⟨d.args, false⟩ S.order with
  | mk S₁ r =>
    rw [hp] at hnamed
    obtain rfl : S₁ = S.named d := hnamed
    cases r with
    | error f => exact .inl rfl
    | ok p =>
      dsimp only
      cases (Verb.ofName? d.name).filter fun v => (S.named d).order.contains (.own v.component) with
      | none => exact .inl rfl
      | some v =>
        refine .inr ⟨v, p, ?_⟩
        dsimp only
        split
        · rename_i S₂ f heq
          rw [heq]
          exact ⟨S₂.handled, rfl, rfl⟩
        · rename_i S₂ a heq
          rw [heq]
          exact ⟨S₂.handled ++ [v], rfl, rfl⟩

theorem Processed.intact [HoleOrder] {r : Session × Except Fault Answer} (h : Processed S d r)
    (hS : S.Intact) :
    r.1.Intact := by
  cases h with
  | unprepared f => exact hS.named d
  | unknown => exact hS.named d
  | @brokenOff v args S' f _ h =>
    have hperform := (hS.named d).perform v args
    rw [h] at hperform
    exact hperform
  | @handled v args S' a _ _ h =>
    have hperform := (hS.named d).perform v args
    rw [h] at hperform
    exact { hperform with }

/-- A directive adds to what has been handled, and to nothing else that the session keeps. -/
theorem Processed.bookkeeping [HoleOrder] {r : Session × Except Fault Answer} (h : Processed S d r)
    (hS : S.Intact) :
    r.1.spares = S.spares ∧ r.1.marks = S.marks ∧ S.handled <+: r.1.handled := by
  have hperform : ∀ {v : Verb} {args : List Object} {S' : Session} {x : Except Fault Answer},
      (S.named d).perform v args = (S', x) →
        S'.spares = S.spares ∧ S'.marks = S.marks ∧ S'.handled = S.handled := by
    intro v args S' x h
    have hperformed := performed_perform (hS.named d).chainsPremises v args
    rw [h] at hperformed
    cases hperformed <;> exact ⟨rfl, rfl, rfl⟩
  cases h with
  | unprepared f => exact ⟨rfl, rfl, List.prefix_refl _⟩
  | unknown => exact ⟨rfl, rfl, List.prefix_refl _⟩
  | brokenOff _ h =>
    obtain ⟨hspares, hmarks, hhandled⟩ := hperform h
    exact ⟨hspares, hmarks, hhandled ▸ List.prefix_refl _⟩
  | handled _ h =>
    obtain ⟨hspares, hmarks, hhandled⟩ := hperform h
    exact ⟨hspares, hmarks, hhandled ▸ List.prefix_append _ _⟩

/-! ## Undoing a directive -/

theorem undo_cases (S : Session) :
    S.handled = [] ∧ S.undo = (none, S) ∨ ∃ v, S.handled.getLast? = some v ∧ S.undo = (some v,
      { S with handled := S.handled.dropLast }.onComponent (fun h => h.undo.2) v.component) := by
  rw [undo]
  cases hlast : S.handled.getLast? with
  | none => exact .inl ⟨List.getLast?_eq_none_iff.mp hlast, rfl⟩
  | some v => exact .inr ⟨v, rfl, rfl⟩

theorem bookkeeping_onComponent (S : Session) (f : {σ : Type} → History σ → History σ)
    (c : Component) : (S.onComponent f c).spares = S.spares ∧
      (S.onComponent f c).marks = S.marks ∧ (S.onComponent f c).handled = S.handled := by
  cases c <;> exact ⟨rfl, rfl, rfl⟩

theorem bookkeeping_undo (S : Session) : S.undo.2.spares = S.spares ∧
    S.undo.2.marks = S.marks ∧ S.undo.2.handled = S.handled.dropLast := by
  obtain ⟨hhandled, heq⟩ | ⟨v, -, heq⟩ := S.undo_cases
  · rw [heq, hhandled]
    exact ⟨rfl, rfl, rfl⟩
  · rw [heq]
    exact bookkeeping_onComponent _ _ _

/-! ## Comparing sessions -/

/-- A relation between histories holds between the histories of every component. -/
structure Compares (R : {σ : Type} → History σ → History σ → Prop) (S S' : Session) : Prop where
  aliases : R S.aliases S'.aliases
  chain : R S.chain S'.chain
  functorials : R S.functorials S'.functorials
  numerals : R S.numerals S'.numerals
  goals : R S.goals S'.goals

section

variable {R R' : {σ : Type} → History σ → History σ → Prop} {S₀ : Session}

/-- A change of one component keeps a relation, if it does so under another one that holds after the
change. -/
theorem Compares.onComponent {f : {σ : Type} → History σ → History σ}
    (hf : ∀ {σ : Type} {h₀ h : History σ}, R h₀ h → R' h₀ (f h) → R h₀ (f h))
    (h : Compares R S₀ S) (c : Component) (h' : Compares R' S₀ (S.onComponent f c)) :
    Compares R S₀ (S.onComponent f c) := by
  match c with
  | .alias => exact { h with aliases := hf h.aliases h'.aliases }
  | .chain => exact { h with chain := hf h.chain h'.chain }
  | .functorial => exact { h with functorials := hf h.functorials h'.functorials }
  | .numeral => exact { h with numerals := hf h.numerals h'.numerals }
  | .goal => exact { h with goals := hf h.goals h'.goals }

/-- Undoing keeps a relation, if one step back does so under another one that holds afterwards. -/
theorem Compares.undo_of_compares
    (hundo : ∀ {σ : Type} {h₀ h : History σ}, R h₀ h → R' h₀ h.undo.2 → R h₀ h.undo.2)
    (h : Compares R S₀ S) (h' : Compares R' S₀ S.undo.2) : Compares R S₀ S.undo.2 := by
  obtain ⟨-, heq⟩ | ⟨v, -, heq⟩ := S.undo_cases
  · rw [heq]
    exact h
  · have hS : Compares R S₀ { S with handled := S.handled.dropLast } := { h with }
    rw [heq] at h' ⊢
    exact hS.onComponent (f := fun h => h.undo.2) hundo v.component h'

theorem Compares.undo (hundo : ∀ {σ : Type} {h₀ h : History σ}, R h₀ h → R h₀ h.undo.2)
    (h : Compares R S₀ S) : Compares R S₀ S.undo.2 := by
  have hnothing : Compares (fun _ _ => True) S₀ S.undo.2 :=
    ⟨trivial, trivial, trivial, trivial, trivial⟩
  exact h.undo_of_compares (fun h _ => hundo h) hnothing

theorem Compares.pushed
    (hpush : ∀ {σ : Type} {h₀ h : History σ} (s : σ), R h₀ h → R h₀ (h.push s))
    (h : Compares R S₀ S) (hpushed : Pushed S c S') : Compares R S₀ S' := by
  cases hpushed with
  | aliases A => exact { h with aliases := hpush A h.aliases }
  | chain c? => exact { h with chain := hpush c? h.chain }
  | functorials F => exact { h with functorials := hpush F h.functorials }
  | goals G => exact { h with goals := hpush G h.goals }

/-- What every step forward keeps, a directive keeps. -/
theorem Compares.processed [HoleOrder] {r : Session × Except Fault Answer}
    (hpush : ∀ {σ : Type} {h₀ h : History σ} (s : σ), R h₀ h → R h₀ (h.push s))
    (h : Compares R S₀ S) (hr : Processed S d r) (hS : S.Intact) : Compares R S₀ r.1 := by
  have hnamed : Compares R S₀ (S.named d) := by
    rcases S.named_eq_or_pushed d with heq | ⟨-, hpushed⟩
    · rw [heq]
      exact h
    · exact h.pushed hpush hpushed
  have hperform : ∀ {v : Verb} {args : List Object} {S' : Session} {x : Except Fault Answer},
      (S.named d).perform v args = (S', x) → Compares R S₀ S' := by
    intro v args S' x hx
    have hperformed := performed_perform (hS.named d).chainsPremises v args
    rw [hx] at hperformed
    rcases hperformed.eq_or_pushed with rfl | ⟨c, hpushed⟩
    · exact hnamed
    · exact hnamed.pushed hpush hpushed
  cases hr with
  | unprepared f => exact hnamed
  | unknown => exact hnamed
  | brokenOff _ hx => exact hperform hx
  | handled _ hx => exact { hperform hx with }

end

end Session

/-! ## Provers -/

variable [HoleOrder]

namespace Prover

section

variable {I : Session → Prop}

mutual

/-- **What directives and marks keep, a line keeps**, whatever it imports. -/
theorem keeps_runLine (hprocess : ∀ S d, I S → I (S.process d).1)
    (hmark : ∀ S name, I S → I (S.mark name)) (fs : FileSystem) (line : String) (P : Prover)
    (hP : I P.session) : I (runLine fs line P).1.session := by
  rw [runLine]
  split
  · exact hP
  · exact hP
  · split
    · split
      · exact hP
      · split
        · exact keeps_importFile hprocess hmark fs _ P hP
        · exact hP
    · exact hprocess _ _ hP
termination_by (fs.files.length, 1, 0)
decreasing_by exact Prod.Lex.right _ (Prod.Lex.left _ _ (by decide))

theorem keeps_importFile (hprocess : ∀ S d, I S → I (S.process d).1)
    (hmark : ∀ S name, I S → I (S.mark name)) (fs : FileSystem) (name : String) (P : Prover)
    (hP : I P.session) : I (importFile fs name P).1.session := by
  rw [importFile]
  split
  · exact hP
  · split
    · exact hP
    · split
      · exact hP
      · split
        · exact hP
        · rename_i text _
          have hlines := keeps_runLines hprocess hmark (fs.without [P.pathOf name])
            (directiveLines text) (P.enter (P.pathOf name)) hP
          -- only an import that is completed leaves a mark
          split
          · rename_i heq
            rw [heq] at hlines
            exact hmark _ _ hlines
          · rename_i heq
            rw [heq] at hlines
            exact hlines
          · rename_i heq
            rw [heq] at hlines
            exact hlines
termination_by (fs.files.length, 0, 0)
decreasing_by exact Prod.Lex.left _ _ (length_without_lt ‹_›)

theorem keeps_runLines (hprocess : ∀ S d, I S → I (S.process d).1)
    (hmark : ∀ S name, I S → I (S.mark name)) (fs : FileSystem) (lines : List String) (P : Prover)
    (hP : I P.session) : I (runLines fs lines P).1.session := by
  cases lines with
  | nil =>
    rw [runLines]
    exact hP
  | cons line lines =>
    have hline := keeps_runLine hprocess hmark fs line P hP
    rw [runLines]
    split
    · rename_i heq
      rw [heq] at hline
      exact hline
    · rename_i P' a heq
      rw [heq] at hline
      split
      · exact keeps_runLines hprocess hmark fs lines P' hline
      · exact hline
termination_by (fs.files.length, 2, lines.length)
decreasing_by
  · exact Prod.Lex.right _ (Prod.Lex.left _ _ (by decide))
  · subst_vars
    exact Prod.Lex.right _ (Prod.Lex.right _ (Nat.lt_succ_self _))

end

end

/-- The states that a prover can be brought to by lines, by undoing, by marking and by rolling
back. -/
inductive Reachable : Prover → Prop
  | initial (base : String) : Reachable (initial base)
  | process {P : Prover} (hP : Reachable P) (fs : FileSystem) (line : String) :
      Reachable (process fs line P).1
  | undo {P : Prover} (hP : Reachable P) : Reachable P.undo.2
  | mark {P : Prover} (hP : Reachable P) (name : String) : Reachable (P.mark name)
  | rollback {P : Prover} (hP : Reachable P) (name : String) : Reachable (P.rollback name).2

theorem Reachable.intact {P : Prover} (hP : P.Reachable) : P.session.Intact := by
  induction hP with
  | initial base => exact Session.intact_initial
  | process hP fs line ih =>
    exact keeps_runLine (fun S d hS => (Session.processed hS.order d).intact hS)
      (fun S name hS => hS.mark name) _ line _ ih
  | undo hP ih => exact ih.undo
  | mark hP name ih => exact ih.mark name
  | rollback hP name ih => exact ih.rollback name

end Prover

end RuleProver
