/-
What a unit does from its start to its end, and its result.

* `Verdict`, `verdict_conclude` : the result of a unit, from how its body ended and from the rounds of
  its sweep;
* `World.ReachesBody`, `World.bodyEnding?` : a unit comes to its body, which ends in some way;
* `World.runUnit_concludes` : direct units and replays that come to their target conclude alike;
* `World.walked_deeds` : until it closes anything, such a unit runs one body and tells of no test;
* **`World.unit_verdict`** : a unit tells that it starts, runs its body once, closes everything that is
  registered once, the latest first, and then tells its result.

## Design notes

A replay comes to its target if its incidents say that the body ran; then the body decides, whatever the
builders do behind it.
-/
import TestTree.Proofs.Custody
import TestTree.Proofs.Incidents
import TestTree.Proofs.Sweeps
import TestTree.Proofs.UnitRuns

namespace TestTree

/-! ### Results -/

/-- The causes of the callbacks that a result tells of. -/
def TestResult.closingCauses : TestResult → List Cause
  | failed f =>
    (if f.origin = .teardown then [f.cause] else []) ++ f.teardown.map TeardownError.cause
  | _ => []

/-- The result of a body that ended so, with the rounds of the sweep behind it. -/
structure Verdict {κ σ : Type} (ending : Ending Cause) (rs : List (Round κ σ))
    (result : TestResult) : Prop where
  /-- A test succeeds exactly if its body and all callbacks finished. -/
  success : result.isSuccess = true ↔
    ending = .finished ∧ ∀ r ∈ rs, r.ran.ending = .finished
  /-- The failure of the body is the cause, and all teardown errors are notes. -/
  failed : ∀ c, ending = .failed c →
    result = .failed ⟨.testBody, c, rs.filterMap Round.error?⟩
  panicked : ∀ p, ending = .panicked p →
    result = .failed ⟨.panic, p.toCause, rs.filterMap Round.error?⟩
  /-- If only callbacks failed, the first error is the cause, and the others are notes. -/
  teardown : ∀ e rest, ending = .finished → rs.filterMap Round.error? = e :: rest →
    result = .failed ⟨.teardown, e.cause, rest⟩
  /-- The cause of each callback that failed is in the result, in the order of the run. -/
  causes : result.closingCauses = (rs.filterMap Round.error?).map TeardownError.cause

theorem Round.error?_eq_none {κ σ : Type} {r : Round κ σ} :
    r.error? = none ↔ r.ran.ending = .finished := by
  rw [Round.error?]
  cases r.ran.ending <;> simp [teardownError?]

theorem verdict_conclude {κ σ : Type} (ending : Ending Cause) (rs : List (Round κ σ)) :
    Verdict ending rs (conclude (Body.failure? ending) (rs.filterMap Round.error?)) := by
  have hnone : rs.filterMap Round.error? = [] ↔ ∀ r ∈ rs, r.ran.ending = .finished := by
    simp [List.filterMap_eq_nil_iff, Round.error?_eq_none]
  constructor
  · rw [← hnone]
    cases ending with
    | finished =>
      cases rs.filterMap Round.error? <;>
        simp [Body.failure?, conclude, Failure.ofTeardown?, TestResult.isSuccess]
    | failed c => simp [Body.failure?, conclude, TestResult.isSuccess]
    | panicked p => simp [Body.failure?, conclude, TestResult.isSuccess]
  · rintro c rfl
    rfl
  · rintro p rfl
    rfl
  · rintro e rest rfl he
    rw [he]
    rfl
  · cases ending with
    | finished => cases rs.filterMap Round.error? <;> rfl
    | failed c => rfl
    | panicked p => rfl

/-! ### Bodies -/

/-- How the body ended that ran. -/
def Incident.bodyEnding? : Incident → Option (Ending Cause)
  | ran _ ending => some ending
  | _ => none

/-- If the body of the target runs, it decides. -/
theorem RootContext.verdict_of_ran {r : RootContext} {l : Listener} {d : Description}
    {n : Notebook} {place : NamePath} {ending : Ending Cause}
    (h : .ran place ending ∈ r.incidents l d n) : r.verdict l d n = Body.failure? ending := by
  have hdecided := (r.replayWalk_meets l d n).decided place ending h
  rw [← RootContext.verdict_eq, Replay.verdict, hdecided]
  cases Body.failure? ending <;> rfl

namespace World

/-- A unit comes to its body: a direct unit always does, a replay if the body of its target runs. -/
def ReachesBody (w : World) : TestUnit → Prop
  | .direct .. => True
  | .replayed test root =>
    ∃ place ending, .ran place ending ∈ root.incidents w.listener test w.book
  | .scripted .. => False

/-- How the body of a unit ends, if the unit comes to it. -/
def bodyEnding? (w : World) : TestUnit → Option (Ending Cause)
  | .direct test body scope shelf =>
    some (body.run ⟨test, w.listener, scope⟩
      ⟨w.shelf shelf, w.book.add (.ran scope.root test.path)⟩).ending
  | .replayed test root =>
    (root.incidents w.listener test w.book).findSome? Incident.bodyEnding?
  | .scripted .. => none

variable {w : World} {u : TestUnit}

theorem ReachesBody.ends (h : w.ReachesBody u) : ∃ ending, w.bodyEnding? u = some ending := by
  cases u with
  | direct test body scope shelf => exact ⟨_, rfl⟩
  | replayed test root =>
    obtain ⟨place, ending, hran⟩ := h
    have hsome : ((root.incidents w.listener test w.book).findSome?
        Incident.bodyEnding?).isSome = true := by
      rw [List.findSome?_isSome_iff]
      exact ⟨_, hran, rfl⟩
    exact Option.isSome_iff_exists.mp hsome
  | scripted test script result => exact h.elim

theorem ran_of_bodyEnding? {test : Description} {root : RootContext} {ending : Ending Cause}
    (h : w.bodyEnding? (.replayed test root) = some ending) :
    ∃ place, .ran place ending ∈ root.incidents w.listener test w.book := by
  obtain ⟨i, hi, hending⟩ := List.exists_of_findSome?_eq_some h
  cases i with
  | ran place ending' =>
    cases hending
    exact ⟨place, hi⟩
  | entered place => cases hending
  | left place ending' => cases hending
  | asked place => cases hending

/-- **A unit concludes from its body and from what is closed behind it.** -/
theorem runUnit_concludes (hh : w.Houses u) {ending : Ending Cause}
    (hb : w.bodyEnding? u = some ending) :
    (w.runUnit u).1 = .ok (conclude (Body.failure? ending)
      (((w.walked u).book.rounds (w.walked u).shelf).filterMap Round.error?)) := by
  rw [Notebook.rounds, ← sweep_errors]
  cases u with
  | direct test body scope shelf =>
    obtain rfl : _ = ending := Option.some.inj hb
    rw [runUnit_direct (hh shelf rfl)]
    rfl
  | replayed test root =>
    obtain ⟨place, hran⟩ := ran_of_bodyEnding? hb
    rw [runUnit, replay_eq, RootContext.verdict_eq, RootContext.verdict_of_ran hran]
    rfl
  | scripted test script result => cases hb

/-! ### What happens in a unit -/

/-- The bodies that incidents write down are those that ran. -/
theorem bodies_incidents (t : TestScope) (is : List Incident) :
    (is.filterMap (Incident.deed? t)).filterMap Event.body?
      = List.replicate (is.countP Incident.isRan) (t.scope.root, t.test.path) := by
  induction is with
  | nil => rfl
  | cons i rest ih =>
    cases i with
    | ran place ending =>
      rw [List.countP_cons_of_pos rfl, List.replicate_succ, ← ih]
      rfl
    | entered place => rw [List.countP_cons_of_neg Bool.false_ne_true, ← ih]; rfl
    | left place ending => rw [List.countP_cons_of_neg Bool.false_ne_true, ← ih]; rfl
    | asked place => rw [List.countP_cons_of_neg Bool.false_ne_true, ← ih]; rfl

theorem isBoundary_incidents (t : TestScope) (is : List Incident) :
    ∀ e ∈ is.filterMap (Incident.deed? t), e.isBoundary = false := by
  intro e he
  obtain ⟨i, -, hi⟩ := List.mem_filterMap.mp he
  cases i with
  | entered place => cases hi; rfl
  | ran place ending => cases hi; rfl
  | left place ending => cases hi
  | asked place => cases hi

/-- **Until it closes anything, a unit runs one body**, and tells of no test. -/
theorem walked_deeds (hr : w.ReachesBody u) : ∃ es,
    (w.walked u).book.deeds = es ++ w.book.deeds ∧ (∀ e ∈ es, e.isBoundary = false) ∧
      ∃ root, es.filterMap Event.body? = [(root, u.test.path)] := by
  cases u with
  | direct test body scope shelf =>
    have hframe := (Body.run_framed (Q := fun _ => True) (Notebook.frame_deeds scope) trivial body
      (t := ⟨test, w.listener, scope⟩)
      ⟨w.shelf shelf, w.book.add (.ran scope.root test.path)⟩).book
    refine ⟨[.ran scope.root test.path], congrArg Prod.fst hframe, ?_, scope.root, rfl⟩
    intro e he
    rw [List.mem_singleton.mp he]
    rfl
  | replayed test root =>
    obtain ⟨place, ending, hran⟩ := hr
    let t : TestScope := ⟨test, w.listener, ⟨root.index, w.book.invocations⟩⟩
    have hmeets := root.replayWalk_meets w.listener test w.book
    have hone : (root.incidents w.listener test w.book).countP Incident.isRan = 1 := by
      have hpos := List.countP_pos_iff.mpr ⟨_, hran, show Incident.isRan _ = true from rfl⟩
      have hle : _ ≤ 1 := hmeets.once
      omega
    refine ⟨((root.incidents w.listener test w.book).filterMap (Incident.deed? t)).reverse
      ++ [.entered root.index (test.container.path.take 1)], ?_, ?_, root.index, ?_⟩
    · rw [List.append_assoc]
      exact hmeets.deeds
    · intro e he
      rcases List.mem_append.mp he with he | he
      · exact isBoundary_incidents _ _ e (List.mem_reverse.mp he)
      · rw [List.mem_singleton.mp he]
        rfl
    · rw [List.filterMap_append, List.filterMap_reverse, bodies_incidents, hone]
      rfl
  | scripted test script result => exact hr.elim

end World

theorem Event.isDeed_of_isBoundary {e : Event} (h : e.isBoundary = true) : e.isDeed = true := by
  cases e with
  | notified n => cases n <;> first | rfl | cases h
  | _ => cases h

/-- Among events, the deeds are those that a notebook counts. -/
theorem Notebook.Writes.deeds {n m : Notebook} {es : List Event} (h : n.Writes m es) :
    m.deeds = (es.filter Event.isDeed).reverse ++ n.deeds := by
  rw [deeds_eq_acts, h.acts, List.filter_append, List.filter_reverse, ← deeds_eq_acts]

theorem bodies_filter_isDeed (es : List Event) :
    (es.filter Event.isDeed).filterMap Event.body? = es.filterMap Event.body? :=
  (Notebook.bodies_eq_deeds { events := es }).symm

/-- What a unit writes down between its start and its end: `walk`, until it closes anything, and then
`closing`, the rounds `rs` of its sweep. -/
structure UnitRun (u : TestUnit) (stock : Closet Closure) (rs : List (Round Closure Notebook))
    (walk closing : List Event) : Prop where
  /-- The body runs once. -/
  body : ∃ root, walk.filterMap Event.body? = [(root, u.test.path)]
  /-- Nothing is closed before that. -/
  unclosed : closedIn walk = []
  /-- Then everything is closed that was registered before the start and since, the latest first. -/
  closed : closedIn closing = (registeredIn walk).reverse ++ stock.waiting
  rounds : closedIn closing = rs.map fun r => r.entry.serial
  /-- Each callback is closed once, in reverse order of registration. -/
  order : stock.Orderly → (closedIn closing).Pairwise (· > ·)
  /-- Nothing is registered and no body runs any more. -/
  quiet : registeredIn closing = [] ∧ closing.filterMap Event.body? = []
  /-- No test is started or finished in between. -/
  inner : Notebook.Inner (walk ++ closing)

namespace World

variable {w : World} {u : TestUnit} {i : Nat}

/-- **What a unit writes down that comes to its body.** -/
theorem runUnit_unitRun (hh : w.Houses u) (hr : w.ReachesBody u) : ∃ walk closing,
    w.book.Writes (w.runUnit u).2.book (walk ++ closing) ∧
      UnitRun u ⟨w.stock u, w.book⟩ ((w.walked u).book.rounds (w.walked u).shelf) walk closing := by
  obtain ⟨walk, hwalk, ⟨more, hshelf, hmore⟩, hopen, -⟩ := w.walked_stocks u
  obtain ⟨closing, hclosing, hcloses⟩ := (w.walked u).book.sweep_writes (w.walked u).shelf
  obtain ⟨es, hes, hinner, root, hbody⟩ := w.walked_deeds hr
  -- the deeds of the walk are those that the unit did until then, and the sweep does none
  have hdeeds : walk.filter Event.isDeed = es.reverse := by
    have := hwalk.deeds.symm.trans hes
    rw [List.append_cancel_right_eq, List.reverse_eq_iff] at this
    exact this
  have hnone : closing.filter Event.isDeed = [] := by
    have := hclosing.deeds.symm.trans (Notebook.deeds_sweep _ _)
    rw [List.append_left_eq_self, List.reverse_eq_nil_iff] at this
    exact this
  have hclosed : closedIn closing = (registeredIn walk).reverse ++ (w.stock u).serials := by
    rw [hcloses.closed, hshelf, Shelf.serials, List.map_append, ← hmore]
    rfl
  refine ⟨walk, closing, ?_, ⟨root, ?_⟩, hopen, hclosed, ?_, ?_, ⟨hcloses.registered, ?_⟩, ?_⟩
  · rw [runUnit_walked hh]
    exact hwalk.trans hclosing
  · rw [← bodies_filter_isDeed, hdeeds, List.filterMap_reverse, hbody]
    rfl
  · rw [hcloses.closed, Notebook.rounds, ← Function.comp_def Registration.serial, ← List.map_map,
      rounds_entries]
    rfl
  · intro hstock
    rw [hclosed, hwalk.numbers, List.pairwise_append]
    refine ⟨List.pairwise_reverse.mpr (List.pairwise_lt_range' ..), hstock.sorted, ?_⟩
    intro j hj k hk
    have hle := (List.mem_range'_1.mp (List.mem_reverse.mp hj)).1
    have hlt := hstock.below k hk
    exact Nat.lt_of_lt_of_le hlt hle
  · rw [← bodies_filter_isDeed, hnone]
    rfl
  · intro e he
    by_contra hb
    have hdeed : e.isDeed = true := Event.isDeed_of_isBoundary (eq_true_of_ne_false hb)
    rcases List.mem_append.mp he with he | he
    · have hm : e ∈ walk.filter Event.isDeed := List.mem_filter.mpr ⟨he, hdeed⟩
      rw [hdeeds] at hm
      exact hb (hinner e (List.mem_reverse.mp hm))
    · have hm : e ∈ closing.filter Event.isDeed := List.mem_filter.mpr ⟨he, hdeed⟩
      rw [hnone] at hm
      cases hm

/-- A unit that was emptied owns nothing. -/
theorem stock_emptied {v : World} (h : v.shelves = w.emptied u) : v.stock u = [] := by
  rw [emptied] at h
  rw [stock]
  cases hk : u.shelf? with
  | none => rfl
  | some k =>
    rw [hk] at h
    exact shelf_of_set h

/-- **The law of units.**  A unit that comes to its body, under a listener that does not panic:

* tells that it starts, runs the body once, then closes every callback that was registered once, the
  latest first, whatever the body and the other callbacks did, and then tells its outcome;
* succeeds exactly if the body and all callbacks did; a failure of the body is its cause, with all
  teardown errors as notes, and otherwise the first teardown error is, with the others as notes;
* owns nothing any more. -/
theorem unit_verdict (hw : w.listener.Calm) (hu : w.cell i = .suspended u)
    (hh : w.Houses u) (hr : (w.begun i u).ReachesBody u) :
    let walked := (w.begun i u).walked u
    let rs := walked.book.rounds walked.shelf
    ∃ ending result v walk closing, (w.begun i u).bodyEnding? u = some ending ∧
      w.runCell i = (none, v) ∧ v.cell i = .done ⟨u.test, result⟩ ∧ v.stock u = [] ∧
      w.book.Writes v.book (.notified (.started u.test) :: (walk ++ closing)
        ++ [.notified (.finished ⟨u.test, result⟩)]) ∧
      UnitRun u ⟨w.stock u, w.book⟩ rs walk closing ∧ Verdict ending rs result := by
  intro walked rs
  obtain ⟨ending, he⟩ := hr.ends
  have hbegun : (w.begun i u).Houses u := hh
  let result := conclude (Body.failure? ending) (rs.filterMap Round.error?)
  have hrun : (w.begun i u).runUnit u = (.ok result, ((w.begun i u).runUnit u).2) :=
    Prod.ext (runUnit_concludes hbegun he) rfl
  obtain ⟨walk, closing, hwrites, hunit⟩ := runUnit_unitRun hbegun hr
  have hstart : w.book.Writes (w.begun i u).book [.notified (.started u.test)] :=
    w.book.writes_add rfl rfl
  have hfinish := Notebook.writes_add ((w.begun i u).runUnit u).2.book
    (e := .notified (.finished ⟨u.test, result⟩)) rfl rfl
  refine ⟨ending, result, _, walk, closing, he, runCell_suspended hw hu hrun,
    cell_ended_self hu hrun, ?_, (hstart.trans hwrites).trans hfinish, ?_, verdict_conclude _ _⟩
  · have hshelves : (((w.begun i u).runUnit u).2.ended i ⟨u.test, result⟩).shelves = w.emptied u :=
      congrArg World.shelves (runUnit_walked hbegun)
    exact stock_emptied hshelves
  · exact { hunit with order := fun hstock => hunit.order (hstock.book rfl) }

end World

/-- A callback that fails. -/
def lateClosure : Closure :=
  ⟨.basic (.fail ⟨.text "late", .plain⟩) .done, ⟨0, 0⟩⟩

/-- A test whose body registers a callback that panics, and then fails. -/
def failingUnit : TestUnit :=
  .direct ⟨looseRoot.context, "t", .site 1⟩
    (.deferClose (.basic (.panic (.fixed "boom")) .done)
      (.basic (.fail ⟨.text "bad", .plain⟩) .done)) ⟨0, 0⟩ 0

/-- The test of a root, to be replayed. -/
def looseUnit : TestUnit :=
  .replayed ⟨.child looseRoot.context "in" (.site 1), "t", .site 2⟩ looseRoot

/-- A direct unit with a failing callback on its shelf, and an isolated one. -/
def unitWorld : World :=
  { World.fresh (.held 1) .silent .lazy with
    book := { serials := 1 }
    shelves := [[⟨0, "deferred", none, lateClosure⟩]]
    cells := [.suspended failingUnit, .suspended looseUnit] }

/-- The body that fails is the cause of the direct unit, with two notes; the isolated unit, whose body
passes, fails by the callback of its context. -/
theorem unit_verdict_unitWorld :
    (unitWorld.runCell 0).2.cell 0 = .done ⟨failingUnit.test, .failed ⟨.testBody, .text "bad",
        [⟨"deferred", .text "panicked: boom"⟩, ⟨"deferred", .text "late"⟩]⟩⟩ ∧
      (unitWorld.runCell 1).2.cell 1
        = .done ⟨looseUnit.test, .failed ⟨.teardown, .text "late", []⟩⟩ := by
  have hcalm : unitWorld.listener.Calm := fun _ => rfl
  constructor
  · obtain ⟨ending, result, v, walk, closing, he, hrun, hcell, -, -, -, hverdict⟩ :=
      World.unit_verdict (w := unitWorld) (i := 0) (u := failingUnit) hcalm rfl
        (by rintro k ⟨⟩; decide) trivial
    obtain rfl : _ = ending := Option.some.inj he
    rw [hrun, hcell, hverdict.failed (.text "bad") rfl]
    rfl
  · obtain ⟨ending, result, v, walk, closing, he, hrun, hcell, -, -, -, hverdict⟩ :=
      World.unit_verdict (w := unitWorld) (i := 1) (u := looseUnit) hcalm rfl (by rintro k ⟨⟩)
        ⟨["in", "t"], .finished, .tail _ (.head _)⟩
    obtain rfl : _ = ending := Option.some.inj he
    rw [hrun, hcell, hverdict.teardown ⟨"deferred", .text "late"⟩ [] rfl rfl]

end TestTree
