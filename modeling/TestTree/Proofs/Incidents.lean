/-
Incidents of a replay: the first that says something about the target decides its result.

* `Incident` : a context on the way was entered or left, the body of the target ran, or somebody asked
  for the current context;
* `Builder.incidents` : what a replay meets in a builder, in order and under the names that are declared
  there;
* `Replay.Meets`, `Builder.replay_meets` : incidents account for the decision of a replay, and for all
  its deeds;
* `Builder.incidents_inPlace` : a replay never leaves the way to the target;
* `World.replay_law` : **the result of a replay is decided by the first incident that says something of
  the target, and everything that was registered is closed behind it**.

## Design notes

The names in incidents come from the builder, and those in the events of a notebook from the target.
Below the root both are the same, which is what `Incident.InPlace` says; the name of the root itself is
never compared.
-/
import TestTree.Proofs.Ledger
import TestTree.Proofs.PlanReplay

namespace TestTree

/-! ### Incidents -/

/-- What a replay meets; a place is given by the names below the root. -/
inductive Incident where
  | entered (place : NamePath)
  /-- A context that was entered is left, as its builder ended. -/
  | left (place : NamePath) (ending : Ending BuildError)
  /-- The body of a test that is declared at a place ran. -/
  | ran (place : NamePath) (ending : Ending Cause)
  /-- The builder of a place asked for the current context. -/
  | asked (place : NamePath)

namespace Incident

/-- What an incident says about the target: its body ran, or it cannot run any more. -/
def verdict? : Incident → Option (Option Failure)
  | ran _ ending => some (Body.failure? ending)
  | left _ ending => (Replay.contextFailure? ending).map some
  | _ => none

/-- The body of a test ran. -/
def isRan : Incident → Bool
  | ran .. => true
  | _ => false

/-- The deed that is written down about an incident. -/
def deed? (t : TestScope) : Incident → Option Event
  | entered place => some (.entered t.scope.root (t.test.container.path.take (place.length + 1)))
  | ran .. => some (.ran t.scope.root t.test.path)
  | _ => none

/-- An incident belongs to the way to `d`: a body is declared under the name of `d` in the context with
the names of its container, and every other place is on the way to that context. -/
def InPlace (d : Description) : Incident → Prop
  | ran place _ => place = d.container.path.tail ++ [d.name]
  | entered place => place ≠ [] ∧ place <+: d.container.path.tail
  | left place _ => place ≠ [] ∧ place <+: d.container.path.tail
  | asked place => place <+: d.container.path.tail

end Incident

/-- Write an event down. -/
def Replay.add (r : Replay) (e : Event) : Replay :=
  { r with closet := { r.closet with book := r.closet.book.add e } }

/-- What is met by the rest of a builder, if it goes on. -/
def Ran.meets (q : Ran BuildError Replay) (next : Replay → List Incident) : List Incident :=
  match q.ending with
  | .finished => next q.state
  | _ => []

/-- What the replay of a builder meets at the place `here`. -/
def Builder.incidents (t : TestScope) : Builder → (here : NamePath) → Replay → List Incident
  | done, _, _ => []
  | basic b next, here, r =>
    (((r.closet.perform t.scope none b).mapError Thrown.toBuildError).mapState
      fun closet => { r with closet }).meets (next.incidents t here)
  | branch c yes no next, here, r =>
    (if r.closet.book.holds t.scope c then yes.incidents t here r else no.incidents t here r)
      ++ (if r.closet.book.holds t.scope c then yes.replay t here.length r
        else no.replay t here.length r).meets (next.incidents t here)
  | autoClose res close next, here, r =>
    next.incidents t here { r with closet := r.closet.autoClose res ⟨close, t.scope⟩ }
  | deferClose close next, here, r =>
    next.incidents t here { r with closet := r.closet.deferClose ⟨close, t.scope⟩ }
  | test name _ body _ next, here, r =>
    if r.decision.isOpen && here.length + 1 == t.test.container.path.length
        && name == t.test.name then
      let ran := body.run t (r.add (.ran t.scope.root t.test.path)).closet
      .ran (here ++ [name]) ran.ending
        :: next.incidents t here ⟨ran.state, .ofBody (Body.failure? ran.ending)⟩
    else next.incidents t here r
  | context name _ inner _ next, here, r =>
    if r.decision.isOpen && t.test.container.path[here.length + 1]? == some name then
      let entered := r.add (.entered t.scope.root (t.test.container.path.take (here.length + 2)))
      let walk := inner.replay t (here.length + 1) entered
      .entered (here ++ [name]) :: (inner.incidents t (here ++ [name]) entered
        ++ .left (here ++ [name]) walk.ending :: next.incidents t here (Replay.leave walk))
    else next.incidents t here r
  | pending _ _ _ next, here, r => next.incidents t here r
  | afterSuite _ next, here, r => next.incidents t here r
  | logCurrent next, here, r =>
    let line := "current " ++ " > ".intercalate (t.test.container.path.take (here.length + 1))
    .asked here :: next.incidents t here
      { r with closet := { r.closet with book := r.closet.book.say t.scope.root line } }

/-! ### What incidents account for -/

namespace Decision

/-- What is known behind an incident: nothing changes what is decided. -/
def meet (d : Decision) (i : Incident) : Decision :=
  if d.isOpen then (i.verdict?.map ofBody).getD d else d

theorem foldl_meet_closed {d : Decision} (h : d.isOpen = false) (is : List Incident) :
    is.foldl meet d = d := by
  induction is with
  | nil => rfl
  | cons i rest ih => rw [List.foldl_cons, meet, h, if_neg Bool.false_ne_true, ih]

/-- **The first incident that says something decides.** -/
theorem foldl_meet (is : List Incident) : is.foldl meet undecided
    = ((is.findSome? Incident.verdict?).map ofBody).getD undecided := by
  induction is with
  | nil => rfl
  | cons i rest ih =>
    rw [List.foldl_cons, List.findSome?_cons]
    cases hi : i.verdict? with
    | none =>
      rw [meet, hi]
      exact ih
    | some v =>
      have hclosed : (ofBody v).isOpen = false := by cases v <;> rfl
      rw [meet, hi]
      exact foldl_meet_closed hclosed rest

end Decision

/-- How many bodies can still run. -/
def Replay.room (r : Replay) : Nat :=
  if r.decision.isOpen then 1 else 0

/-- On its way from `r` to `q` a replay meets `is`. -/
structure Replay.Meets (t : TestScope) (r : Replay) (is : List Incident) (q : Replay) : Prop where
  decision : q.decision = is.foldl Decision.meet r.decision
  deeds : q.closet.book.deeds = (is.filterMap (Incident.deed? t)).reverse ++ r.closet.book.deeds
  once : is.countP Incident.isRan + q.room ≤ r.room
  /-- The body of the target decides if it runs. -/
  decided : ∀ place ending, .ran place ending ∈ is → q.decision = .ofBody (Body.failure? ending)

namespace Replay

variable {t : TestScope} {r q p : Replay} {is js : List Incident}

theorem meets_nil (h : r.Same q) : r.Meets t [] q where
  decision := h.decision
  deeds := h.deeds
  once := by
    rw [room, room, h.decision]
    exact Nat.le_of_eq (Nat.zero_add _)
  decided := nofun

theorem Meets.append (h : r.Meets t is q) (k : q.Meets t js p) : r.Meets t (is ++ js) p where
  decision := by rw [k.decision, h.decision, List.foldl_append]
  deeds := by
    rw [k.deeds, h.deeds, List.filterMap_append, List.reverse_append, List.append_assoc]
  once := by
    have hh := h.once
    have hk := k.once
    rw [List.countP_append]
    omega
  decided := by
    intro place ending hm
    rcases List.mem_append.mp hm with hm | hm
    · -- what is met later finds the decision made
      have hq := h.decided place ending hm
      have hclosed : q.decision.isOpen = false := by
        rw [hq]
        cases Body.failure? ending <;> rfl
      rw [k.decision, Decision.foldl_meet_closed hclosed, hq]
    · exact k.decided place ending hm

/-- A step that does nothing before the rest. -/
theorem Meets.quiet (h : r.Same q) (k : q.Meets t js p) : r.Meets t js p :=
  Meets.append (meets_nil h) k

theorem Meets.cons {i : Incident} (h : r.Meets t [i] q) (k : q.Meets t js p) :
    r.Meets t (i :: js) p :=
  Meets.append h k

/-- A part of a builder, and the rest of it if that goes on. -/
theorem Meets.andThen {a : Ran BuildError Replay} {next : Replay → Ran BuildError Replay}
    {later : Replay → List Incident} (h : r.Meets t is a.state)
    (k : ∀ r : Replay, r.Meets t (later r) (next r).state) :
    r.Meets t (is ++ a.meets later) (a.andThen next).state := by
  obtain ⟨ending, state⟩ := a
  cases ending with
  | finished => exact h.append (k state)
  | failed e => exact h.append (meets_nil ⟨rfl, rfl, rfl⟩)
  | panicked p => exact h.append (meets_nil ⟨rfl, rfl, rfl⟩)

/-- The body of the target runs once, and decides. -/
theorem meets_ran (ho : r.decision.isOpen = true) (place : NamePath) (body : Body) :
    let ran := body.run t (r.add (.ran t.scope.root t.test.path)).closet
    r.Meets t [.ran place ran.ending] ⟨ran.state, .ofBody (Body.failure? ran.ending)⟩ := by
  intro ran
  have hclosed : (Decision.ofBody (Body.failure? ran.ending)).isOpen = false := by
    cases Body.failure? ran.ending <;> rfl
  have hframe := (Body.run_framed (Q := fun _ => True) (Notebook.frame_deeds t.scope) trivial body
    (r.add (.ran t.scope.root t.test.path)).closet).book
  refine ⟨?_, congrArg Prod.fst hframe, ?_, fun place' ending hm => ?_⟩
  · rw [List.foldl_cons, Decision.meet, ho]
    rfl
  · rw [room, room, ho, hclosed]
    exact Nat.le_refl 1
  · cases List.mem_singleton.mp hm
    rfl

/-- An incident that says nothing about the target. -/
theorem meets_silent {i : Incident} (hv : i.verdict? = none) (hr : i.isRan = false)
    (hdec : q.decision = r.decision)
    (hdeeds : q.closet.book.deeds = (i.deed? t).toList ++ r.closet.book.deeds) :
    r.Meets t [i] q := by
  refine ⟨?_, ?_, ?_, fun place ending hm => ?_⟩
  · rw [hdec, List.foldl_cons, List.foldl_nil, Decision.meet, hv]
    exact (ite_self _).symm
  · rw [hdeeds]
    cases hi : i.deed? t with
    | none => rw [List.filterMap_cons_none hi]; rfl
    | some e => rw [List.filterMap_cons_some hi]; rfl
  · rw [List.countP_cons_of_neg (by rw [hr]; exact Bool.false_ne_true), List.countP_nil,
      Nat.zero_add, room, room, hdec]
  · rw [← List.mem_singleton.mp hm] at hr
    cases hr

/-- A context is left: its failure decides, unless something else did. -/
theorem meets_left (place : NamePath) (a : Ran BuildError Replay) :
    a.state.Meets t [.left place a.ending] (leave a) := by
  have hroom : (leave a).room ≤ a.state.room := by
    rw [leave]
    split
    · split
      · exact Nat.zero_le _
      · exact Nat.le_refl _
    · exact Nat.le_refl _
  refine ⟨?_, congrArg (fun c : Closet Closure => c.book.deeds) (closet_leave a), ?_,
    fun place' ending hm => ?_⟩
  · rw [List.foldl_cons, List.foldl_nil, Decision.meet, Incident.verdict?, leave]
    cases contextFailure? a.ending with
    | none =>
      dsimp only
      split <;> rfl
    | some f =>
      dsimp only
      split <;> rfl
  · rw [List.countP_cons_of_neg (by exact Bool.false_ne_true), List.countP_nil, Nat.zero_add]
    exact hroom
  · cases List.mem_singleton.mp hm

end Replay

open Replay in
/-- **Incidents account for a replay**: for what it decides, and for all its deeds. -/
theorem Builder.replay_meets (t : TestScope) (b : Builder) : ∀ (here : NamePath) (r : Replay),
    r.Meets t (b.incidents t here r) (b.replay t here.length r).state := by
  induction b with
  | done => intro here r; exact meets_nil ⟨rfl, rfl, rfl⟩
  | basic b next ih =>
    intro here r
    have hframe := Notebook.frame_deeds t.scope |>.perform r.closet.book none b
    have hquiet : r.Meets t [] (((r.closet.perform t.scope none b).mapError
        Thrown.toBuildError).mapState fun closet => { r with closet }).state := by
      refine meets_nil ⟨rfl, ?_, ?_⟩
      · show ((r.closet.perform t.scope none b).mapError _).state.book.deeds = _
        rw [Ran.state_mapError]
        exact congrArg Prod.fst hframe
      · show ((r.closet.perform t.scope none b).mapError _).state.book.invocations = _
        rw [Ran.state_mapError]
        exact congrArg Prod.snd hframe
    exact hquiet.andThen (ih here)
  | branch c yes no next ihy ihn ih =>
    intro here r
    refine Meets.andThen ?_ (ih here)
    split
    · exact ihy here r
    · exact ihn here r
  | autoClose res close next ih =>
    intro here r
    have hsame : r.Same { r with closet := r.closet.autoClose res ⟨close, t.scope⟩ } :=
      ⟨rfl, rfl, rfl⟩
    exact (ih here _).quiet hsame
  | deferClose close next ih =>
    intro here r
    have hsame : r.Same { r with closet := r.closet.deferClose ⟨close, t.scope⟩ } :=
      ⟨rfl, rfl, rfl⟩
    exact (ih here _).quiet hsame
  | test name site body swallow next ih =>
    intro here r
    rw [incidents, replay]
    split
    · rename_i hcond
      rw [Bool.and_assoc, Bool.and_eq_true] at hcond
      exact (meets_ran hcond.1 (here ++ [name]) body).cons (ih here _)
    · exact ih here r
  | context name site inner swallow next ihi ih =>
    intro here r
    rw [incidents, replay]
    split
    · rename_i hcond
      let entered := r.add (.entered t.scope.root (t.test.container.path.take (here.length + 2)))
      have hentered : r.Meets t [.entered (here ++ [name])] entered := by
        refine meets_silent rfl rfl rfl ?_
        rw [Incident.deed?, List.length_append, List.length_singleton]
        rfl
      have hinner := ihi (here ++ [name]) entered
      rw [List.length_append, List.length_singleton] at hinner
      exact hentered.cons (hinner.append ((meets_left (here ++ [name]) _).cons (ih here _)))
    · exact ih here r
  | pending name site swallow next ih => intro here r; exact ih here r
  | afterSuite callback next ih => intro here r; exact ih here r
  | logCurrent next ih =>
    intro here r
    let line := "current " ++ " > ".intercalate (t.test.container.path.take (here.length + 1))
    have hsame : r.Same (r.add (.said t.scope.root line)) := ⟨rfl, rfl, rfl⟩
    have hasked : r.Meets t [.asked here] r := meets_silent rfl rfl rfl rfl
    exact hasked.cons ((ih here _).quiet hsame)

/-! ### Where incidents happen -/

section Places

variable {d : Description} {here : NamePath} {name : String}

/-- A place as long as the way is its end. -/
theorem eq_tail_of_length (hh : here <+: d.container.path.tail)
    (hl : here.length + 1 = d.container.path.length) : here = d.container.path.tail :=
  hh.eq_of_length (by rw [List.length_tail]; omega)

/-- The next name on the way leads on. -/
theorem prefix_tail_of_next (hh : here <+: d.container.path.tail)
    (hn : d.container.path[here.length + 1]? = some name) :
    here ++ [name] <+: d.container.path.tail := by
  obtain ⟨more, hm⟩ := hh
  rw [← List.getElem?_tail, ← hm, List.getElem?_append_right (Nat.le_refl _), Nat.sub_self] at hn
  rw [← hm, List.prefix_append_right_inj]
  cases more with
  | nil => cases hn
  | cons n rest =>
    cases hn
    exact ⟨rest, rfl⟩

end Places

/-- **A replay never leaves the way to its target.** -/
theorem Builder.incidents_inPlace (t : TestScope) (b : Builder) : ∀ (here : NamePath) (r : Replay),
    here <+: t.test.container.path.tail → ∀ i ∈ b.incidents t here r, i.InPlace t.test := by
  -- what the rest of a builder meets is in place, if it goes on at all
  have hrest : ∀ (q : Ran BuildError Replay) (next : Replay → List Incident),
      (∀ r, ∀ i ∈ next r, i.InPlace t.test) → ∀ i ∈ q.meets next, i.InPlace t.test := by
    intro q next h i hi
    rw [Ran.meets] at hi
    split at hi
    · exact h _ i hi
    · cases hi
  induction b with
  | done => exact fun _ _ _ => nofun
  | basic b next ih => exact fun here r hh => hrest _ _ fun r => ih here r hh
  | branch c yes no next ihy ihn ih =>
    intro here r hh i hi
    rw [incidents] at hi
    rcases List.mem_append.mp hi with hi | hi
    · split at hi
      · exact ihy here r hh i hi
      · exact ihn here r hh i hi
    · exact hrest _ _ (fun r => ih here r hh) i hi
  | autoClose res close next ih => exact fun here r hh => ih here _ hh
  | deferClose close next ih => exact fun here r hh => ih here _ hh
  | test name site body swallow next ih =>
    intro here r hh i hi
    rw [incidents] at hi
    split at hi
    · rename_i hcond
      rw [Bool.and_eq_true, Bool.and_eq_true, beq_iff_eq, beq_iff_eq] at hcond
      rcases List.mem_cons.mp hi with rfl | hi
      · rw [Incident.InPlace, eq_tail_of_length hh hcond.1.2, hcond.2]
      · exact ih here _ hh i hi
    · exact ih here r hh i hi
  | context name site inner swallow next ihi ih =>
    intro here r hh i hi
    rw [incidents] at hi
    split at hi
    · rename_i hcond
      rw [Bool.and_eq_true, beq_iff_eq] at hcond
      have hway := prefix_tail_of_next hh hcond.2
      have hne : here ++ [name] ≠ [] := List.append_ne_nil_of_right_ne_nil _ (List.cons_ne_nil _ _)
      rcases List.mem_cons.mp hi with rfl | hi
      · exact ⟨hne, hway⟩
      · rcases List.mem_append.mp hi with hi | hi
        · exact ihi _ _ hway i hi
        · rcases List.mem_cons.mp hi with rfl | hi
          · exact ⟨hne, hway⟩
          · exact ih here _ hh i hi
    · exact ih here r hh i hi
  | pending name site swallow next ih => exact ih
  | afterSuite callback next ih => exact ih
  | logCurrent next ih =>
    intro here r hh i hi
    rcases List.mem_cons.mp hi with rfl | hi
    · exact hh
    · exact ih here _ hh i hi

/-! ### The result of a replay -/

/-- What a replay of `d` in the tree of a root meets. -/
def RootContext.incidents (r : RootContext) (l : Listener) (d : Description) (n : Notebook) :
    List Incident :=
  r.builder.incidents ⟨d, l, ⟨r.index, n.invocations⟩⟩ [] ⟨⟨[], (n.replaying r d).2⟩, .undecided⟩

/-- What a replay says of its target, before anything is closed: what the first incident says that says
something, or else that the root failed, or that the target was not declared again. -/
def RootContext.verdict (r : RootContext) (l : Listener) (d : Description) (n : Notebook) :
    Option Failure :=
  ((r.incidents l d n).findSome? Incident.verdict?).getD
    (some ((Replay.contextFailure? (r.replayWalk l d n).ending).getD (mismatch d)))

theorem RootContext.replayWalk_meets (r : RootContext) (l : Listener) (d : Description)
    (n : Notebook) : Replay.Meets ⟨d, l, ⟨r.index, n.invocations⟩⟩
      ⟨⟨[], (n.replaying r d).2⟩, .undecided⟩ (r.incidents l d n) (r.replayWalk l d n).state :=
  r.builder.replay_meets _ [] _

theorem RootContext.verdict_eq (r : RootContext) (l : Listener) (d : Description) (n : Notebook) :
    Replay.verdict d (r.replayWalk l d n) = r.verdict l d n := by
  have hdecision := (r.replayWalk_meets l d n).decision
  rw [Decision.foldl_meet] at hdecision
  rw [Replay.verdict, RootContext.verdict, hdecision]
  cases (r.incidents l d n).findSome? Incident.verdict? with
  | none => rfl
  | some v => cases v <;> rfl

/-- A failure that a replay comes to has no notes yet. -/
theorem RootContext.teardown_verdict {r : RootContext} {l : Listener} {d : Description}
    {n : Notebook} {f : Failure} (h : r.verdict l d n = some f) : f.teardown = [] := by
  have hcontext : ∀ {e : Ending BuildError} {g : Failure}, Replay.contextFailure? e = some g →
      g.teardown = [] := by
    intro e g hg
    cases e <;> cases hg <;> rfl
  rw [RootContext.verdict] at h
  cases hfirst : (r.incidents l d n).findSome? Incident.verdict? with
  | none =>
    rw [hfirst] at h
    cases h
    cases he : Replay.contextFailure? (r.replayWalk l d n).ending with
    | none => rfl
    | some g => exact hcontext he
  | some v =>
    rw [hfirst] at h
    obtain rfl : v = some f := h
    obtain ⟨i, -, hi⟩ := List.exists_of_findSome?_eq_some hfirst
    cases i with
    | entered place => cases hi
    | asked place => cases hi
    | left place ending =>
      obtain ⟨g, hg, hgf⟩ := Option.map_eq_some_iff.mp hi
      cases hgf
      exact hcontext hg
    | ran place ending => cases ending <;> cases hi <;> rfl

/-- **The law of replays.**  For every builder, and every target that it may declare or not:

* a replay comes to a result: the first incident that says something decides it, whatever follows, or
  else the root that failed, or the target that was not declared again;
* teardown errors become notes of what failed, and the first of them fails what passed;
* at most one body runs, and it is declared under the name of the target in the context with the names
  of its container; no other context is entered than those on the way, and incidents are all that was
  done;
* all that was registered is closed behind that, each callback once, in reverse order of registration. -/
theorem World.replay_law (w : World) (root : RootContext) (d : Description) :
    let met := root.incidents w.listener d w.book
    let verdict := root.verdict w.listener d w.book
    let walk := (root.replayWalk w.listener d w.book).state.closet
    let swept := walk.book.sweep walk.shelf
    ∃ result, w.runUnit (.replayed d root) = (.ok result, { w with book := swept.2 }) ∧
      (∀ f, verdict = some f → result = .failed { f with teardown := swept.1 }) ∧
      (verdict = none → swept.1 = [] → result = .success 0) ∧
      (∀ e rest, verdict = none → swept.1 = e :: rest →
        result = .failed ⟨.teardown, e.cause, rest⟩) ∧
      met.countP Incident.isRan ≤ 1 ∧ (∀ i ∈ met, i.InPlace d) ∧
      swept.2.deeds = (met.filterMap (Incident.deed? ⟨d, w.listener, ⟨root.index, w.book.invocations⟩⟩)
        ).reverse ++ .entered root.index (d.container.path.take 1) :: w.book.deeds ∧
      ∃ walked closing, w.book.Writes walk.book walked ∧ closedIn walked = [] ∧
        walk.book.Writes swept.2 closing ∧ Closes (registeredIn walked).reverse closing := by
  intro met verdict walk swept
  have hmeets := root.replayWalk_meets w.listener d w.book
  refine ⟨conclude verdict swept.1, ?_, fun f hf => ?_, fun hv he => ?_, fun e rest hv he => ?_,
    ?_, root.builder.incidents_inPlace _ [] _ List.nil_prefix, ?_, ?_⟩
  · rw [runUnit, replay_eq, RootContext.verdict_eq]
    rfl
  · rw [hf, conclude, Failure.withTeardown, RootContext.teardown_verdict hf, List.nil_append]
  · rw [hv, he]
    rfl
  · rw [hv, he]
    rfl
  · exact Nat.le_of_add_right_le hmeets.once
  · rw [Notebook.deeds_sweep]
    exact hmeets.deeds
  · have hhouses : w.Houses (.replayed d root) := by rintro body ⟨⟩
    obtain ⟨walked, closing, hwalked, hopen, -, hclosing, hcloses⟩ := w.runUnit_writes hhouses
    have hnothing : (w.stock (.replayed d root)).serials = [] := rfl
    rw [hnothing, List.append_nil] at hcloses
    exact ⟨walked, closing, hwalked, hopen, hclosing, hcloses⟩

/-- A root whose context registers a callback and panics behind its only test. -/
def looseRoot : RootContext :=
  ⟨0, "root", false, .site 0,
    .context "in" (.site 1)
      (.test "t" (.site 2) .done false <|
        .deferClose (.basic (.fail ⟨.text "late", .plain⟩) .done) <|
          .basic (.panic .other) .done) false .done⟩

/-- The test passes before the panic, and fails by what is closed behind it; a test that is not
declared there is a mismatch. -/
theorem replay_law_looseRoot :
    let w := World.fresh (.held 1) .silent .lazy
    (w.runUnit (.replayed ⟨.child looseRoot.context "in" (.site 1), "t", .site 2⟩ looseRoot)).1
        = .ok (.failed ⟨.teardown, .text "late", []⟩) ∧
      ∃ f, (w.runUnit (.replayed ⟨looseRoot.context, "t", .site 2⟩ looseRoot)).1 = .ok (.failed f) ∧
        f.origin = .replayMismatch := by
  intro w
  constructor
  · obtain ⟨result, hrun, -, -, hfails, -⟩ := w.replay_law looseRoot
      ⟨.child looseRoot.context "in" (.site 1), "t", .site 2⟩
    rw [hrun, hfails ⟨"deferred", .text "late"⟩ [] rfl rfl]
  · obtain ⟨result, hrun, hfailed, -⟩ := w.replay_law looseRoot ⟨looseRoot.context, "t", .site 2⟩
    rw [hrun, hfailed _ rfl]
    exact ⟨_, rfl, rfl⟩

end TestTree
