/-
Runs of all roots of a suite.

* `Suite.runServed_idle` : a run without workers is the one in which they never come;
* `World.waitEachServed_answers`, `Suite.waitResultsServed_answers` : waiting gives one outcome for
  each handle, in order;
* `Suite.DiscoversServed.answers` : what all roots give together has handles that answer;
* `Suite.runAfterSuites_chain` : the callbacks of all roots are run one after another;
* `Report.counts` : the line of a report counts its outcomes;
* `Suite.run_complete` : **a run of a suite is complete and in order.**

## Design notes

Everything is proved for all ways in which the workers can be faster or slower, while roots are
discovered as well as behind that.
-/
import TestTree.Proofs.ServedDiscovery
import TestTree.Proofs.SuiteDiscovery
import TestTree.Suite.Served

namespace TestTree

/-! ### Runs with workers -/

namespace World

theorem waitEachServed_idle (hs : List Handle) :
    ∀ w : World, w.waitEachServed (fun _ => 0) hs = w.waitEach hs := by
  induction hs with
  | nil => intro w; rfl
  | cons h rest ih =>
    intro w
    rw [waitEachServed, waitEach, serve]
    generalize w.wait h = first
    obtain ⟨p | o, v⟩ := first
    · rfl
    · have hrest := ih v
      dsimp only
      generalize v.waitEachServed (fun _ => 0) rest = behind at hrest ⊢
      subst hrest
      rfl

variable {w : World}

theorem keepsAnswers_startAllServed (turns : Handle → Nat) (hs : List Handle) :
    ∀ w : World, w.KeepsAnswers (w.startAllServed turns hs) := by
  induction hs with
  | nil => exact keepsAnswers_useRelation.refl
  | cons h rest ih =>
    intro w
    have hserved := keepsAnswers_useRelation.serve (turns h) w
    exact (hserved.trans (keepsAnswers_useRelation.start trivial _)).trans (ih _)

/-- An outcome of the test of a handle, which is in its cell. -/
def Answered (w : World) (h : Handle) (o : Outcome) : Prop :=
  o.test = h.test ∧ w.cell h.cell = .done o

theorem Answered.kept {v : World} {h : Handle} {o : Outcome} (ha : v.Answered h o)
    (hw : v.KeepsAnswers w) : w.Answered h o :=
  ⟨ha.1, hw.done _ _ ha.2⟩

/-- **Waiting gives one outcome for each handle, in order**, however many entries the workers take
before each wait. -/
theorem waitEachServed_answers (turns : Handle → Nat) (hs : List Handle) : ∀ {w : World},
    w.listener.Calm → (∀ h ∈ hs, w.Answers h) → ∃ os z, w.waitEachServed turns hs = (.ok os, z) ∧
      w.KeepsAnswers z ∧ List.Forall₂ z.Answered hs os := by
  induction hs with
  | nil => intro w _ _; exact ⟨[], w, rfl, keepsAnswers_useRelation.refl w, .nil⟩
  | cons h rest ih =>
    intro w hw hall
    have hserved : w.KeepsAnswers (serve (turns h) w) := keepsAnswers_useRelation.serve (turns h) w
    obtain ⟨result, v, hwait, hdone⟩ := wait_answers (hserved.listener ▸ hw)
      (hserved.answers hw h (hall h List.mem_cons_self))
    have hwaited := keepsAnswers_useRelation.wait (k := h) trivial (serve (turns h) w)
    rw [hwait] at hwaited
    have hv := hserved.trans hwaited
    obtain ⟨os, z, hrest, hz, hos⟩ := ih (hv.listener ▸ hw) fun k hk =>
      hv.answers hw k (hall k (List.mem_cons_of_mem _ hk))
    refine ⟨⟨h.test, result⟩ :: os, z, ?_, hv.trans hz, .cons ⟨rfl, hz.done _ _ hdone⟩ hos⟩
    rw [waitEachServed, hwait]
    dsimp only
    rw [hrest]
    rfl

end World

namespace Suite

variable {s : Suite} {w v z : World} {ds : List Discovery} {found : List (Except StructuralError Discovery)}

theorem waitResultsServed_idle (ds : List Discovery) :
    ∀ w, waitResultsServed .idle ds w = waitResults ds w := by
  induction ds with
  | nil => intro w; rfl
  | cons d rest ih =>
    intro w
    have hwait : (w.startAllServed Turns.idle.again d.tests).waitEachServed Turns.idle.await d.tests
        = w.waitAll d.tests := World.waitEachServed_idle _ _
    rw [waitResultsServed, waitResults, hwait]
    generalize w.waitAll d.tests = first
    obtain ⟨p | os, v⟩ := first
    · rfl
    · have hrest := ih v
      dsimp only
      generalize waitResultsServed .idle rest v = behind at hrest ⊢
      subst hrest
      rfl

theorem discoverEachServed_idle (rs : List RootContext) :
    ∀ w, discoverEachServed Turns.idle.discovery rs w = discoverEach rs w := by
  induction rs with
  | nil => intro w; rfl
  | cons r rest ih =>
    intro w
    rw [discoverEachServed, discoverEach]
    simp only [ih]
    rw [show r.discoverServed (Turns.idle.discovery r) w = _ from r.discoverServed_idle w]

/-- **A suite finds without workers what it finds if they never come.** -/
theorem findServed_idle (s : Suite) (w : World) :
    s.findServed Turns.idle.discovery w = s.find w := by
  rw [findServed, find, discoverEachServed_idle]

/-- **A run without workers is the one in which they never come.** -/
theorem runServed_idle (s : Suite) (w : World) : s.runServed .idle w = s.run w := by
  rw [runServed, run, findServed_idle]
  simp only [waitResultsServed_idle]
  rfl

theorem keepsAnswers_startResults (turns : Handle → Nat) (ds : List Discovery) : ∀ w : World,
    w.KeepsAnswers (ds.foldl (fun w d => w.startAllServed turns d.tests) w) := by
  induction ds with
  | nil => exact World.keepsAnswers_useRelation.refl
  | cons d rest ih =>
    exact fun w => (World.keepsAnswers_startAllServed turns d.tests w).trans (ih _)

/-- **Waiting for several results gives one outcome for each of their handles, in order.** -/
theorem waitResultsServed_answers (turns : Turns) (ds : List Discovery) : ∀ {w : World},
    w.listener.Calm → (∀ h ∈ ds.flatMap Discovery.tests, w.Answers h) →
    ∃ os z, waitResultsServed turns ds w = (.ok os, z) ∧ w.KeepsAnswers z ∧
      List.Forall₂ z.Answered (ds.flatMap Discovery.tests) os := by
  induction ds with
  | nil => intro w _ _; exact ⟨[], w, rfl, World.keepsAnswers_useRelation.refl w, .nil⟩
  | cons d rest ih =>
    intro w hw hall
    rw [List.flatMap_cons] at hall
    have hstarted := World.keepsAnswers_startAllServed turns.again d.tests w
    obtain ⟨os, v, hwait, hwaited, hos⟩ := World.waitEachServed_answers turns.await d.tests
      (hstarted.listener ▸ hw) fun h hh => hstarted.answers hw h (hall h (List.mem_append_left _ hh))
    have hv := hstarted.trans hwaited
    obtain ⟨more, z, hrest, hz, hmore⟩ := ih (hv.listener ▸ hw) fun h hh =>
      hv.answers hw h (hall h (List.mem_append_right _ hh))
    refine ⟨os ++ more, z, ?_, hv.trans hz, ?_⟩
    · rw [waitResultsServed, hwait]
      dsimp only
      rw [hrest]
    · rw [List.flatMap_cons]
      exact List.rel_append (hos.imp fun _ _ ho => ho.kept hz) hmore

end Suite

/-! ### Discoveries of all roots -/

namespace Suite

variable {s : Suite} {turns : RootContext → Discovery.Turns} {rs : List RootContext} {v w : World}
  {found : List (Except StructuralError Discovery)} {ds : List Discovery}

/-- The roots are discovered one after another, each in the world that the one before it left, while
the workers take their turns. -/
inductive DiscoversServed (turns : RootContext → Discovery.Turns) : List RootContext → World →
    List (Except StructuralError Discovery) → World → Prop
  | nil (w : World) : DiscoversServed turns [] w [] w
  | cons {r : RootContext} {rest : List RootContext} {w v z : World}
      {first : Except StructuralError Discovery} {more : List (Except StructuralError Discovery)}
      (hd : r.discoverServed (turns r) w = (.ok first, v))
      (h : DiscoversServed turns rest v more z) :
      DiscoversServed turns (r :: rest) w (first :: more) z

/-- Roots that are discovered without workers are discovered while they never come. -/
theorem Discovers.served (h : Discovers rs w found v) :
    DiscoversServed Turns.idle.discovery rs w found v := by
  induction h with
  | nil w => exact .nil w
  | cons hd _ ih => exact .cons ((RootContext.discoverServed_idle _ _).trans hd) ih

theorem DiscoversServed.discoverEachServed_eq (h : DiscoversServed turns rs w found v) :
    discoverEachServed turns rs w = (found.map .ok, v) := by
  induction h with
  | nil w => rfl
  | cons hd _ ih => rw [discoverEachServed, hd]; dsimp only; rw [ih]; rfl

theorem findServed_of_ok (h : DiscoversServed turns s.enabled (s.skipDisabled w) (ds.map .ok) v) :
    s.findServed turns w = (.ok (.ok ds), v) := by
  rw [findServed, h.discoverEachServed_eq]
  exact settle_of_ok ds v

/-- **What all roots give together has handles that answer.** -/
theorem DiscoversServed.answers (h : DiscoversServed turns rs w found v) (hw : w.listener.Calm)
    (hok : found = ds.map .ok) :
    w.KeepsAnswers v ∧ ∀ h ∈ ds.flatMap Discovery.tests, v.Answers h := by
  induction h generalizing ds with
  | nil w =>
    rw [List.map_eq_nil_iff.mp hok.symm]
    exact ⟨World.keepsAnswers_of_eq rfl rfl, fun h hh => absurd hh List.not_mem_nil⟩
  | @cons r rest w u v first more hd hrest ih =>
    cases ds with
    | nil => cases hok
    | cons d ds =>
      obtain ⟨rfl, hmore⟩ := List.cons.inj hok
      rcases r.discoverServed_answers (turns r) hw with ⟨error, z, herror⟩ | ⟨d', z, hz, hu, hfirst⟩
      · cases hd.symm.trans herror
      · cases hd.symm.trans hz
        have hcalm : u.listener.Calm := hu.listener ▸ hw
        obtain ⟨hv, hall⟩ := ih hcalm hmore
        refine ⟨hu.trans hv, fun h hh => ?_⟩
        rw [List.flatMap_cons, List.mem_append] at hh
        rcases hh with hh | hh
        · exact hv.answers hcalm h (hfirst h hh)
        · exact hall h hh

end Suite

/-! ### Callbacks of all roots -/

namespace CallbackRun

variable {ks ls : List CallbackRun} {u v w : World}

theorem Chain.append (h : Chain u ks v) (g : Chain v ls w) : Chain u (ks ++ ls) w := by
  induction h with
  | nil w => exact g
  | cons hw hp _ ih => exact .cons hw hp (ih g)

/-- Callbacks leave cells alone. -/
theorem Chain.cells (h : Chain u ks v) :
    v.cells = u.cells ∧ ∀ k ∈ ks, k.before.cells = u.cells := by
  induction h with
  | nil w => exact ⟨rfl, nofun⟩
  | @cons k ks u v hw _ _ ih =>
    have hstep : u.cells = k.before.cells := hw.cells
    refine ⟨ih.1.trans hstep, fun l hl => ?_⟩
    rcases List.mem_cons.mp hl with rfl | hl
    · rfl
    · exact (ih.2 l hl).trans hstep

end CallbackRun

/-- **The callbacks of all roots are run one after another**, in the order of the roots. -/
theorem Suite.runAfterSuites_chain (ds : List Discovery) : ∀ w, ∃ runs,
    runs.map CallbackRun.callback = ds.flatMap Discovery.afterSuite ∧
      CallbackRun.Chain w runs (runAfterSuites ds w).2 ∧
      (runAfterSuites ds w).1 = runs.filterMap CallbackRun.cause? := by
  induction ds with
  | nil => intro w; exact ⟨[], rfl, .nil w, rfl⟩
  | cons d rest ih =>
    intro w
    obtain ⟨runs, hmap, hchain, hcauses⟩ :=
      Discovery.runCallbacks_chain d.root.display d.afterSuite w
    obtain ⟨more, hmore, hlater, hothers⟩ :=
      ih (Discovery.runCallbacks d.root.display d.afterSuite w).2
    refine ⟨runs ++ more, ?_, hchain.append hlater, ?_⟩
    · rw [List.map_append, hmap, hmore, List.flatMap_cons]
    · rw [List.filterMap_append, ← hcauses, ← hothers]
      rfl

/-! ### Reports -/

namespace Report

variable (r : Report)

/-- The successful tests, in order. -/
def successes : List Outcome :=
  r.outcomes.filter (·.result.isSuccess)

/-- Every outcome is a success, a failure or pending, and only one of these. -/
theorem length_outcomes :
    r.successes.length + r.failed.length + r.pending.length = r.outcomes.length := by
  rw [successes, failed, pending]
  simp only [← List.countP_eq_length_filter]
  induction r.outcomes with
  | nil => rfl
  | cons o rest ih =>
    have hone : (if o.result.isSuccess = true then 1 else 0)
        + (if o.result.isFailed = true then 1 else 0)
        + (if o.result.isPending = true then 1 else 0) = 1 := by
      cases o.result with
      | _ => rfl
    simp only [List.countP_cons, List.length_cons]
    omega

/-- The line of a report counts its outcomes, and what it subtracts for that is there. -/
structure Counts : Prop where
  no_underflow : r.failed.length + r.pending.length ≤ r.outcomes.length
  summary : r.summary =
    let failed := r.failed.length
    let pending := r.pending.length
    let passed := r.successes.length
    s!"{r.outcomes.length} tests: {passed} passed, {failed} failed, {pending} pending"
      ++ if r.afterSuite.isEmpty then ""
         else s!", {r.afterSuite.length} after-suite failures"

/-- **The number of tests that passed is the number of successes.** -/
theorem counts : r.Counts := by
  have hall := r.length_outcomes
  have hpassed : r.outcomes.length - r.failed.length - r.pending.length = r.successes.length := by
    omega
  refine ⟨by omega, ?_⟩
  rw [summary, hpassed]

theorem allOk_iff : r.allOk = true ↔
    (∀ o ∈ r.outcomes, o.result.isFailed = false) ∧ r.afterSuite = [] := by
  simp [allOk, and_comm]

end Report

/-! ### Complete runs -/

namespace Suite

variable {s : Suite} {w v z : World} {ds : List Discovery} {report : Report}
  {runs : List CallbackRun}

/-- Behind a discovery that gave the results `ds` and left the world `w`, a run ended in the world `z`
with the report `report`.  The callbacks were run as `runs`, between the worlds `u` and `v`. -/
structure Completes (ds : List Discovery) (report : Report) (runs : List CallbackRun)
    (w u v z : World) : Prop where
  /-- There is one outcome for each handle, in the order of the roots and of discovery. -/
  outcomes : List.Forall₂ z.Answered (ds.flatMap Discovery.tests) report.outcomes
  contexts : report.contexts = ds.flatMap Discovery.contexts
  /-- Every callback is run once, in the order of the roots and of registration. -/
  callbacks : runs.map CallbackRun.callback = ds.flatMap Discovery.afterSuite
  before : w.KeepsAnswers u
  chain : CallbackRun.Chain u runs v
  behind : v.KeepsAnswers z
  /-- Every test of every root has its outcome when a callback begins. -/
  settled : ∀ k ∈ runs, List.Forall₂ k.before.Answered (ds.flatMap Discovery.tests) report.outcomes
  failures : report.afterSuite = runs.filterMap CallbackRun.cause?
  allOk : report.allOk = true ↔
    (∀ o ∈ report.outcomes, o.result.isFailed = false) ∧ ∀ k ∈ runs, k.cause? = none
  counts : report.Counts

/-- A run behind a discovery ended with a report, and was complete. -/
def Finishes (ds : List Discovery) (w : World)
    (ran : Except Payload (Except StructuralError Report) × World) : Prop :=
  ∃ report runs u v z, ran = (.ok (.ok report), z) ∧ Completes ds report runs w u v z

/-- A run of a suite is complete whose roots all give results. -/
theorem runServed_finishes (hw : w.listener.Calm) (turns : Turns)
    (h : DiscoversServed turns.discovery s.enabled (s.skipDisabled w) (ds.map .ok) v) :
    Finishes ds v (s.runServed turns w) := by
  have hskip := (s.skipDisabled_rests w).listener
  obtain ⟨hkept, hanswers⟩ := h.answers (hskip ▸ hw) rfl
  have hv : v.listener.Calm := hkept.listener ▸ hskip ▸ hw
  have hstarted := keepsAnswers_startResults turns.first ds v
  obtain ⟨os, x, hwait, hwaited, hos⟩ := waitResultsServed_answers turns ds (hstarted.listener ▸ hv)
    fun k hk => hstarted.answers hv k (hanswers k hk)
  obtain ⟨runs, hmap, hchain, hcauses⟩ := runAfterSuites_chain ds x
  rcases hafter : runAfterSuites ds x with ⟨causes, y⟩
  rw [hafter] at hchain hcauses
  obtain rfl : causes = runs.filterMap CallbackRun.cause? := hcauses
  let report : Report :=
    ⟨os, (ds.map Discovery.contexts).flatten, runs.filterMap CallbackRun.cause?⟩
  -- callbacks leave the outcomes where they are
  have hkept : ∀ {u : World}, u.cells = x.cells →
      List.Forall₂ u.Answered (ds.flatMap Discovery.tests) os := by
    intro u hu
    exact hos.imp fun _ _ ho => ⟨ho.1, by rw [World.cell_congr hu]; exact ho.2⟩
  have hfinal : ∀ k ∈ ds.flatMap Discovery.tests, (y.cell k.cell).isSuspended = false := by
    intro k hk
    obtain ⟨o, -, -, hdone⟩ := exists_of_forall₂ (hkept hchain.cells.1).flip hk
    rw [hdone]
    rfl
  have hdrop : (y.trace .info report.summary []).dropResults ds = y.trace .info report.summary [] :=
    World.dropResults_of_final ds hfinal
  refine ⟨report, runs, x, y, y.trace .info report.summary [], ?_, ?_⟩
  · rw [runServed, findServed_of_ok h]
    dsimp only
    rw [hwait]
    dsimp only
    rw [hafter]
    exact congrArg _ hdrop
  · exact {
      outcomes := hkept hchain.cells.1
      contexts := List.flatMap_def.symm
      callbacks := hmap
      before := hstarted.trans hwaited
      chain := hchain
      behind := World.keepsAnswers_of_eq rfl rfl
      settled := fun k hk => hkept (hchain.cells.2 k hk)
      failures := rfl
      allOk := by rw [report.allOk_iff, List.filterMap_eq_nil_iff]
      counts := report.counts }

theorem openPool_eq {workers : Nat} {threadPrefix : String}
    (hp : Pool.startPanic? workers threadPrefix = none) :
    ∃ u, w.openPool workers threadPrefix = .ok u ∧ u.listener = w.listener := by
  rw [World.openPool, hp]
  exact ⟨_, rfl, rfl⟩

/-- A pool of one's own is closed behind the run, when nothing waits for it any more. -/
theorem onOwnPool_finishes {u : World}
    {f : World → Except Payload (Except StructuralError Report) × World}
    (hu : w.openPool (s.settings.workers.getD 1) s.settings.threadPrefix = .ok u)
    (hf : Finishes ds v (f u)) : Finishes ds v (s.onOwnPool f w) := by
  obtain ⟨report, runs, x, y, z, hran, hc⟩ := hf
  have hclosed : z.KeepsAnswers z.closePool := World.keepsAnswers_useRelation.shutDownPool z
  refine ⟨report, runs, x, y, z.closePool, ?_, { hc with
    behind := hc.behind.trans hclosed
    outcomes := hc.outcomes.imp fun _ _ ho => ho.kept hclosed }⟩
  rw [onOwnPool, hu]
  dsimp only
  rw [hran]

/-- **A run of a suite is complete and in order.**  If the listener does not panic, and all roots that
are not disabled give results, then the run ends with a report, whatever the settings of the suite,
its pool and its start policy are:

* there is one outcome for each handle, in the order of the roots and of discovery, and the contexts
  are those of all roots in order;
* every callback behind all tests is run once, in the order of the roots and of registration, and
  every test of every root has its outcome by then; what the callbacks failed with is reported in
  this order;
* all is well exactly if no outcome and no callback failed, and the number of tests that passed is the
  number of successes.

This holds however many entries of the queue the workers take at any moment, while roots are
discovered or behind that.  The same holds of a pool of the suite's own, if its workers can be
started. -/
theorem run_complete (s : Suite) (hw : w.listener.Calm) :
    (∀ (ds : List Discovery) (v : World),
      (Discovers s.enabled (s.skipDisabled w) (ds.map .ok) v → Finishes ds v (s.run w)) ∧
      ∀ turns : Turns,
        DiscoversServed turns.discovery s.enabled (s.skipDisabled w) (ds.map .ok) v →
        Finishes ds v (s.runServed turns w)) ∧
    (Pool.startPanic? (s.settings.workers.getD 1) s.settings.threadPrefix = none →
      ∃ u, w.openPool (s.settings.workers.getD 1) s.settings.threadPrefix = .ok u ∧
        ∀ (ds : List Discovery) (v : World),
          (Discovers s.enabled (s.skipDisabled u) (ds.map .ok) v →
            Finishes ds v (s.onOwnPool s.run w)) ∧
          ∀ turns : Turns,
            DiscoversServed turns.discovery s.enabled (s.skipDisabled u) (ds.map .ok) v →
            Finishes ds v (s.onOwnPool (s.runServed turns) w)) := by
  have hrun : ∀ {u : World}, u.listener.Calm → ∀ (ds : List Discovery) (v : World),
      Discovers s.enabled (s.skipDisabled u) (ds.map .ok) v → Finishes ds v (s.run u) := by
    intro u hu ds v h
    rw [← runServed_idle]
    exact runServed_finishes hu .idle h.served
  refine ⟨fun ds v => ⟨hrun hw ds v, runServed_finishes hw⟩, fun hp => ?_⟩
  obtain ⟨u, hu, hlistener⟩ := openPool_eq (w := w) hp
  have hcalm : u.listener.Calm := hlistener ▸ hw
  exact ⟨u, hu, fun ds v => ⟨fun h => onOwnPool_finishes hu (hrun hcalm ds v h), fun turns h =>
    onOwnPool_finishes hu (runServed_finishes hcalm turns h)⟩⟩

end Suite

/-- A suite of two roots.  A test of the first one fails, and so does its callback. -/
def pairedSuite : Suite :=
  { roots := [
      ⟨0, "one", false, .site 0,
        .afterSuite (.basic (.fail ⟨.text "no", .sorted⟩) .done) <|
        .test "a" (.site 1) (.basic (.fail ⟨.text "fault", .sorted⟩) .done) false <|
        .pending "p" (.site 2) false .done⟩,
      ⟨1, "two", false, .site 3, .afterSuite .done <| .test "b" (.site 4) .done false .done⟩] }

/-- Workers that take an entry of the queue whenever they can. -/
def Turns.busy : Turns :=
  ⟨fun _ => ⟨fun _ _ => 1, fun _ _ => 1, fun _ => 1⟩, fun _ => 1, fun _ => 1, fun _ => 1⟩

/-- There are three outcomes and one failure of a callback.  Busy workers have run the first test when
discovery ends; a pool of the suite's own does as well. -/
theorem run_complete_pairedSuite :
    (∃ (ds : List Discovery) (v : World), ds.length = 2 ∧
      Suite.Finishes ds v (pairedSuite.run (.fresh (.held 1) .silent .eager))) ∧
    (∃ report z, pairedSuite.run (.fresh (.held 1) .silent .eager) = (.ok (.ok report), z) ∧
      report.outcomes.length = 3 ∧ report.afterSuite = [.text "no"] ∧ report.allOk = false) ∧
    (∃ (ds : List Discovery) (v : World), ds.length = 2 ∧ (v.cell 0).isDone = true ∧
      Suite.Finishes ds v (pairedSuite.runServed .busy (.fresh (.held 1) .silent .eager))) ∧
    ∃ (ds : List Discovery) (v : World), ds.length = 2 ∧
      Suite.Finishes ds v
        (pairedSuite.onOwnPool pairedSuite.run (.fresh (.held 1) .silent .lazy)) := by
  obtain ⟨hshared, -⟩ :=
    pairedSuite.run_complete (w := .fresh (.held 1) .silent .eager) fun _ => rfl
  refine ⟨?_, ⟨_, _, rfl, rfl, rfl, rfl⟩, ?_, ?_⟩
  · obtain ⟨ds, v, hlength, hd⟩ : ∃ (ds : List Discovery) (v : World), ds.length = 2 ∧
        Suite.Discovers pairedSuite.enabled
          (pairedSuite.skipDisabled (.fresh (.held 1) .silent .eager)) (ds.map .ok) v :=
      ⟨[_, _], _, rfl, .cons rfl (.cons rfl (.nil _))⟩
    exact ⟨ds, v, hlength, (hshared ds v).1 hd⟩
  · obtain ⟨ds, v, hlength, hdone, hd⟩ : ∃ (ds : List Discovery) (v : World), ds.length = 2 ∧
        (v.cell 0).isDone = true ∧
        Suite.DiscoversServed Turns.busy.discovery pairedSuite.enabled
          (pairedSuite.skipDisabled (.fresh (.held 1) .silent .eager)) (ds.map .ok) v :=
      ⟨[_, _], _, rfl, rfl, .cons rfl (.cons rfl (.nil _))⟩
    exact ⟨ds, v, hlength, hdone, (hshared ds v).2 .busy hd⟩
  · obtain ⟨-, hown⟩ :=
      pairedSuite.run_complete (w := .fresh (.held 1) .silent .lazy) fun _ => rfl
    obtain ⟨u, hu, hall⟩ := hown rfl
    obtain ⟨ds, v, hlength, hd⟩ : ∃ (ds : List Discovery) (v : World), ds.length = 2 ∧
        Suite.Discovers pairedSuite.enabled (pairedSuite.skipDisabled u) (ds.map .ok) v := by
      cases hu
      exact ⟨[_, _], _, rfl, .cons rfl (.cons rfl (.nil _))⟩
    exact ⟨ds, v, hlength, (hall ds v).1 hd⟩

end TestTree
