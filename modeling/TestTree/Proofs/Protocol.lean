/-
What a listener is told about handles.

* `Notebook.told` : the starts and the ends of tests that a listener was told of;
* `Lifecycle` : what a cell was made with, what it holds now, and what the listener was told of it;
* `World.Obeys` : every cell of a world has a lifecycle, and the listener was told nothing else;
* `World.obeys_begun`, `obeys_cameToEnd`, `obeys_runCell`, … : everything that happens to cells keeps
  that;
* `Desk`, `Desk.act` : handles, and what can be asked of a scheduler, of handles and of the pool;
* `Desk.listener_protocol` : **whatever is asked, the listener is told of a start and an end in turn**,
  and outcomes are what it was told.

## Design notes

Tests of different handles may have equal descriptions, so a notice does not say which handle it is
about.  A diary has the number of the cell next to each notice.

A unit can be run in one go, as `World.runCell` does it.  On a desk it can also begin and end, with
anything in between: other threads use their handles while it runs.
-/
import TestTree.Proofs.Uses

namespace TestTree

/-! ### Notices about starts and ends -/

/-- The start or the end of a test that an event tells the listener of. -/
def Event.told? : Event → Option Notice
  | .notified (.started d) => some (.started d)
  | .notified (.finished o) => some (.finished o)
  | _ => none

namespace Notebook

/-- The starts and ends of tests that the listener was told of, in order. -/
def told (n : Notebook) : List Notice :=
  (n.events.filterMap Event.told?).reverse

theorem told_add (n : Notebook) (e : Event) : (n.add e).told = n.told ++ e.told?.toList := by
  cases h : e.told? <;> simp [told, add, h]

theorem told_eq_acts (n : Notebook) : n.told = (n.acts.filterMap Event.told?).reverse := by
  rw [told, acts, List.filterMap_filter]
  congr 2
  funext e
  cases e with
  | traced t => rfl
  | _ => simp [Event.isAct]

theorem told_of_acts {n m : Notebook} (h : m.acts = n.acts) : m.told = n.told := by
  rw [told_eq_acts, h, ← told_eq_acts]

/-- An event that is neither a start nor an end. -/
theorem told_add_of_inner (n : Notebook) {e : Event} (h : e.isBoundary = false) :
    (n.add e).told = n.told := by
  have hnone : e.told? = none := by
    cases e with
    | notified n => cases n <;> first | rfl | cases h
    | _ => rfl
  rw [told_add, hnone, Option.toList_none, List.append_nil]

theorem frame_told (s : Scope) : Frame told s where
  perform n res b := by cases b <;> rfl
  event n e he := by
    refine n.told_add_of_inner ?_
    cases e with
    | notified n => cases n <;> first | rfl | cases he
    | _ => rfl
  serial n k := rfl

theorem told_sweep (n : Notebook) (rs : List (Registration Closure)) :
    (n.sweep rs).2.told = n.told :=
  sweep_frame rs (fun _ _ => frame_told _) n

end Notebook

namespace World

variable {w : World}

theorem Rests.told {v w : World} (h : v.Rests w) : w.book.told = v.book.told :=
  Notebook.told_of_acts h.acts

/-- A unit tells of no start and no end itself. -/
theorem told_runUnit (w : World) (u : TestUnit) : (w.runUnit u).2.book.told = w.book.told := by
  cases u with
  | direct d body scope k =>
    have hbody := Body.run_framed (t := ⟨d, w.listener, scope⟩) (Q := fun _ => True)
      (Notebook.frame_told scope) trivial body ⟨w.shelf k, w.book.add (.ran scope.root d.path)⟩
    refine (Notebook.told_sweep _ _).trans (hbody.book.trans ?_)
    exact w.book.told_add_of_inner rfl
  | replayed d r =>
    let s : Scope := ⟨r.index, w.book.invocations⟩
    have hreplay := Builder.replay_framed (t := ⟨d, w.listener, s⟩) (Q := fun _ => True)
      (Notebook.frame_told s) (fun n _ => n.told_add_of_inner) trivial r.builder 0
      ⟨⟨[], (w.book.replaying r d).2⟩, .undecided⟩
    have hbegin : (w.book.replaying r d).2.told = w.book.told :=
      (Notebook.told_add_of_inner (e := .entered _ _) _ rfl).trans
        (w.book.told_add_of_inner (e := .traced _) rfl)
    exact (Notebook.told_sweep _ _).trans (hreplay.book.trans hbegin)
  | scripted d script result =>
    have hscript := Callback.run_frame (Notebook.frame_told ⟨0, 0⟩) none script w.book
    rw [runUnit]
    split <;> exact hscript

theorem told_dropUnit (w : World) (u : TestUnit) : (w.dropUnit u).book.told = w.book.told := by
  cases u with
  | direct d body scope k =>
    obtain ⟨book, hdrop, hrests⟩ := w.dropUnit_direct d body scope k
    rw [hdrop]
    exact hrests.told.trans (w.book.told_sweep _)
  | _ => rfl

end World

/-! ### Lifecycles -/

/-- What a cell was made with: a unit, or an outcome that was known. -/
inductive Made where
  | unit (u : TestUnit)
  | outcome (o : Outcome)
  deriving Inhabited

/-- The test that a cell was made for. -/
def Made.test : Made → Description
  | unit u => u.test
  | outcome o => o.test

/-- A run of the unit can end so: with a result, or in a panic. -/
def TestUnit.CanEnd (u : TestUnit) (e : Except Payload TestResult) : Prop :=
  ∃ w : World, (w.runUnit u).1 = e

/-- What a cell was made with, what it holds, and what the listener was told of it.  Only what nobody
holds, which is `gone`, is dropped. -/
inductive Lifecycle (gone : Prop) : Made → Cell TestUnit Outcome → List Notice → Prop
  | waiting (u : TestUnit) : Lifecycle gone (.unit u) (.suspended u) []
  | running (u : TestUnit) : Lifecycle gone (.unit u) .running [.started u.test]
  | finished (u : TestUnit) (r : TestResult) (h : u.CanEnd (.ok r)) :
      Lifecycle gone (.unit u) (.done ⟨u.test, r⟩) [.started u.test, .finished ⟨u.test, r⟩]
  | panicked (u : TestUnit) (p : Payload) (h : u.CanEnd (.error p)) :
      Lifecycle gone (.unit u) .abandoned [.started u.test]
  | cancelled (u : TestUnit) :
      Lifecycle gone (.unit u) .cancelled [.finished (World.unfinished u.test .cancelled)]
  | dropped (u : TestUnit) (h : gone) : Lifecycle gone (.unit u) .discarded []
  | given (o : Outcome) : Lifecycle gone (.outcome o) (.done o) [.finished o]

theorem Lifecycle.mono {p q : Prop} (hpq : p → q) {m : Made} {c : Cell TestUnit Outcome}
    {ns : List Notice} (h : Lifecycle p m c ns) : Lifecycle q m c ns := by
  cases h with
  | waiting u => exact .waiting u
  | running u => exact .running u
  | finished u r hr => exact .finished u r hr
  | panicked u p hp => exact .panicked u p hp
  | cancelled u => exact .cancelled u
  | dropped u hg => exact .dropped u (hpq hg)
  | given o => exact .given o

/-- Notices, each with the cell that it is about. -/
abbrev Diary : Type :=
  List (Nat × Notice)

namespace Diary

/-- The notices about one cell. -/
def about (diary : Diary) (i : Nat) : List Notice :=
  diary.filterMap fun n => if n.1 = i then some n.2 else none

theorem about_append_self (diary : Diary) (i : Nat) (ns : List Notice) :
    about (diary ++ ns.map (i, ·)) i = diary.about i ++ ns := by
  rw [about, List.filterMap_append, List.filterMap_map]
  congr 1
  simp

theorem about_append_of_ne {i j : Nat} (h : i ≠ j) (diary : Diary) (ns : List Notice) :
    about (diary ++ ns.map (i, ·)) j = diary.about j := by
  rw [about, List.filterMap_append, List.filterMap_map]
  simp [h, about]

theorem map_snd_append (diary : Diary) (i : Nat) (ns : List Notice) :
    (diary ++ ns.map (i, ·)).map Prod.snd = diary.map Prod.snd ++ ns := by
  rw [List.map_append, List.map_map]
  simp [Function.comp_def]

end Diary

/-- Every cell has a lifecycle, and all that the listener was told belongs to one. -/
structure World.Obeys (l : Listener) (w : World) (made : List Made) (dropped : List Nat)
    (diary : Diary) : Prop where
  listener : w.listener = l
  told : w.book.told = diary.map Prod.snd
  length : w.cells.length = made.length
  lives : ∀ i m, made[i]? = some m → Lifecycle (i ∈ dropped) m (w.cell i) (diary.about i)
  unmade : ∀ i, made.length ≤ i → diary.about i = []

namespace World

variable {l : Listener} {v w : World} {made : List Made} {gone : List Nat} {diary : Diary} {i : Nat}
  {u : TestUnit}

theorem obeys_fresh (pool : Pool Nat) (l : Listener) (policy : StartPolicy) :
    Obeys l (.fresh pool l policy) [] [] [] :=
  ⟨rfl, rfl, rfl, nofun, fun _ _ => rfl⟩

/-- More than was dropped may be gone. -/
theorem Obeys.let_go (h : w.Obeys l made gone diary) (k : Nat) :
    w.Obeys l made (k :: gone) diary :=
  ⟨h.listener, h.told, h.length, fun i m hm => (h.lives i m hm).mono (List.mem_cons_of_mem k),
    h.unmade⟩

/-- No cell changes, and the listener is told nothing. -/
theorem Obeys.still (h : w.Obeys l made gone diary) (hl : v.listener = w.listener)
    (hc : v.cells = w.cells) (ht : v.book.told = w.book.told) : v.Obeys l made gone diary := by
  refine ⟨hl.trans h.listener, ht.trans h.told, (congrArg _ hc).trans h.length, fun i m hm => ?_,
    h.unmade⟩
  rw [cell, hc]
  exact h.lives i m hm

/-- A new cell, of which the listener may have been told. -/
theorem Obeys.grown (h : w.Obeys l made gone diary) (hl : v.listener = w.listener) {m : Made}
    {c : Cell TestUnit Outcome} (ns : List Notice) (hc : v.cells = w.cells ++ [c])
    (ht : v.book.told = w.book.told ++ ns) (hlife : ∀ p, Lifecycle p m c ns) :
    v.Obeys l (made ++ [m]) gone (diary ++ ns.map (w.cells.length, ·)) := by
  refine ⟨hl.trans h.listener, ?_, ?_, fun i k hk => ?_, fun i hi => ?_⟩
  · rw [ht, h.told, Diary.map_snd_append]
  · rw [hc, List.length_append, List.length_append, h.length]
    rfl
  · rcases Nat.lt_or_ge i made.length with hi | hi
    · rw [List.getElem?_append_left hi] at hk
      have hne : w.cells.length ≠ i := by
        rw [h.length]
        exact Nat.ne_of_gt hi
      rw [cell, hc, List.getElem?_append_left (h.length ▸ hi), Diary.about_append_of_ne hne]
      exact h.lives i k hk
    · have hlast : i = made.length := by
        have hlt := (List.getElem?_eq_some_iff.mp hk).1
        rw [List.length_append, List.length_singleton] at hlt
        omega
      subst hlast
      rw [List.getElem?_append_right (Nat.le_refl _), Nat.sub_self] at hk
      cases hk
      rw [cell, hc, h.length, List.getElem?_append_right (h.length ▸ Nat.le_refl _),
        Diary.about_append_self, h.unmade _ (Nat.le_refl _), h.length, Nat.sub_self]
      exact hlife _
  · rw [List.length_append, List.length_singleton] at hi
    have hne : w.cells.length ≠ i := by
      rw [h.length]
      omega
    rw [Diary.about_append_of_ne hne]
    exact h.unmade i (by omega)

/-- One cell changes, and the listener is told of it. -/
theorem Obeys.changed (h : w.Obeys l made gone diary) (hl : v.listener = w.listener) {m : Made}
    (hm : made[i]? = some m) {c : Cell TestUnit Outcome} (ns : List Notice)
    (hc : v.cells = w.cells.set i c) (ht : v.book.told = w.book.told ++ ns)
    (hlife : Lifecycle (i ∈ gone) m c (diary.about i ++ ns)) :
    v.Obeys l made gone (diary ++ ns.map (i, ·)) := by
  have hi : i < made.length := (List.getElem?_eq_some_iff.mp hm).1
  refine ⟨hl.trans h.listener, ?_, ?_, fun j k hk => ?_, fun j hj => ?_⟩
  · rw [ht, h.told, Diary.map_snd_append]
  · rw [hc, List.length_set, h.length]
  · by_cases hij : i = j
    · subst hij
      cases hm.symm.trans hk
      rw [cell, hc, List.getElem?_set_self (h.length ▸ hi), Diary.about_append_self]
      exact hlife
    · rw [cell, hc, List.getElem?_set_ne hij, Diary.about_append_of_ne hij]
      exact h.lives j k hk
  · rw [Diary.about_append_of_ne (by omega)]
    exact h.unmade j hj

/-- The unit of a cell that waits, and what the listener was told of it: nothing. -/
theorem Obeys.waiting (h : w.Obeys l made gone diary) (hu : w.cell i = .suspended u) :
    made[i]? = some (.unit u) ∧ diary.about i = [] := by
  have hi : i < made.length := h.length ▸ lt_of_suspended hu
  have hm := List.getElem?_eq_getElem hi
  have hlife := h.lives i _ hm
  rw [hu] at hlife
  generalize made[i] = m at hm hlife
  generalize diary.about i = ns at hlife
  cases hlife
  exact ⟨hm, rfl⟩

/-! ### What happens to cells -/

/-- A unit that has begun. -/
theorem obeys_begun (h : w.Obeys l made gone diary) (hu : w.cell i = .suspended u) :
    (w.begun i u).Obeys l made gone (diary ++ [(i, .started u.test)]) := by
  obtain ⟨hm, hnone⟩ := h.waiting hu
  have hlife : Lifecycle (i ∈ gone) (.unit u) .running (diary.about i ++ [.started u.test]) := by
    rw [hnone]
    exact .running u
  exact h.changed (v := w.begun i u) rfl hm [.started u.test] rfl (w.book.told_add _) hlife

/-- The world in which the unit that runs in a cell has come to its end. -/
def cameToEnd (w : World) (i : Nat) (u : TestUnit) : World :=
  match w.runUnit u with
  | (.error _, w) => w.setCell i .abandoned
  | (.ok result, w) => w.ended i ⟨u.test, result⟩

/-- **A unit that was started is finished**, unless it panics. -/
theorem obeys_cameToEnd (h : w.Obeys l made gone diary) (hm : made[i]? = some (.unit u))
    (hr : w.cell i = .running) : ∃ more, (w.cameToEnd i u).Obeys l made gone (diary ++ more) := by
  have hstarted : diary.about i = [.started u.test] := by
    have hlife := h.lives i _ hm
    rw [hr] at hlife
    generalize diary.about i = ns at hlife ⊢
    cases hlife
    rfl
  -- as long as the unit runs, nobody is told anything
  have hran : (w.runUnit u).2.Obeys l made gone diary :=
    h.still (listener_runUnit w u) (cells_runUnit w u) (told_runUnit w u)
  rw [cameToEnd]
  cases hu : w.runUnit u with
  | mk res v =>
    rw [hu] at hran
    cases res with
    | error p =>
      have hlife : Lifecycle (i ∈ gone) (.unit u) .abandoned (diary.about i ++ []) := by
        rw [hstarted]
        exact .panicked u p ⟨w, congrArg Prod.fst hu⟩
      exact ⟨_, hran.changed (v := v.setCell i .abandoned) rfl hm [] rfl
        (List.append_nil _).symm hlife⟩
    | ok r =>
      have hlife : Lifecycle (i ∈ gone) (.unit u) (.done ⟨u.test, r⟩)
          (diary.about i ++ [.finished ⟨u.test, r⟩]) := by
        rw [hstarted]
        exact .finished u r ⟨w, congrArg Prod.fst hu⟩
      exact ⟨_, hran.changed (v := v.ended i ⟨u.test, r⟩) rfl hm [_] rfl (v.book.told_add _) hlife⟩

/-- If the listener does not panic, a cell is run by beginning its unit and coming to its end. -/
theorem runCell_eq_cameToEnd (hw : w.listener.Calm) (hu : w.cell i = .suspended u) :
    (w.runCell i).2 = (w.begun i u).cameToEnd i u := by
  have hstart : (w.setCell i .running).notify (.started u.test) = (none, w.begun i u) :=
    Prod.ext (hw _) rfl
  rw [cameToEnd]
  cases hr : (w.begun i u).runUnit u with
  | mk res v =>
    cases res with
    | ok r => rw [runCell_suspended hw hu hr]
    | error p =>
      rw [runCell, hu]
      dsimp only
      rw [hstart]
      dsimp only
      rw [hr]

/-- **A unit that is run is started and finished**, or started only if it panics. -/
theorem obeys_runCell (hl : l.Calm) (h : w.Obeys l made gone diary) (i : Nat) :
    ∃ more, (w.runCell i).2.Obeys l made gone (diary ++ more) := by
  by_cases hu : ∃ u, w.cell i = .suspended u
  · obtain ⟨u, hu⟩ := hu
    have hrunning : (w.begun i u).cell i = .running := cell_setCell_self (lt_of_suspended hu)
    obtain ⟨more, hover⟩ := obeys_cameToEnd (obeys_begun h hu) (h.waiting hu).1 hrunning
    rw [runCell_eq_cameToEnd (h.listener ▸ hl) hu]
    rw [List.append_assoc] at hover
    exact ⟨_, hover⟩
  · rw [runCell_of_ne fun u hc => hu ⟨u, hc⟩]
    exact ⟨[], (List.append_nil diary).symm ▸ h⟩

/-- **A test that is cancelled is finished, and not started.** -/
theorem obeys_cancel (hl : l.Calm) (h : w.Obeys l made gone diary) {k : Handle} {m : Made}
    (hm : made[k.cell]? = some m) (hk : k.test = m.test) :
    ∃ more, (w.cancel k).2.Obeys l made gone (diary ++ more) := by
  by_cases hu : ∃ u, w.cell k.cell = .suspended u
  · obtain ⟨u, hu⟩ := hu
    obtain ⟨hunit, hnone⟩ := h.waiting hu
    cases hm.symm.trans hunit
    have hlife : Lifecycle (k.cell ∈ gone) (.unit u) .cancelled
        (diary.about k.cell ++ [.finished (unfinished k.test .cancelled)]) := by
      rw [hnone, hk]
      exact .cancelled u
    rw [cancel_suspended (h.listener ▸ hl) hu]
    refine ⟨_, h.changed (v := w.withdrawn k u) (listener_withdrawn _ _ _) hm [_]
      (cells_dropUnit _ _) ?_ hlife⟩
    have htold : ((w.setCell k.cell .cancelled).dropUnit u).book.told = w.book.told :=
      told_dropUnit _ _
    rw [← htold]
    exact (Notebook.told_add _ _).trans
      (congrArg (· ++ _) (Notebook.told_add_of_inner (e := .traced _) _ rfl))
  · rw [cancel_of_ne fun u hc => hu ⟨u, hc⟩]
    exact ⟨[], (List.append_nil diary).symm ▸ h⟩

/-- The listener is told nothing of a test that is dropped. -/
theorem obeys_drop (h : w.Obeys l made gone diary) (k : Handle) :
    (w.drop k).Obeys l made (k.cell :: gone) diary := by
  rw [drop]
  split
  · exact h.let_go _
  · split
    · rename_i u hu
      obtain ⟨hm, hnone⟩ := h.waiting hu
      have hlife : Lifecycle (k.cell ∈ k.cell :: gone) (.unit u) .discarded
          (diary.about k.cell ++ []) := by
        rw [hnone]
        exact .dropped u List.mem_cons_self
      have hdropped := (h.let_go k.cell).changed (v := (w.dropUnit u).setCell k.cell .discarded)
        (listener_dropUnit _ _) hm [] ?_ ?_ hlife
      · rwa [List.map_nil, List.append_nil] at hdropped
      · rw [setCell, cells_dropUnit]
      · rw [List.append_nil]
        exact told_dropUnit _ _
    · exact h.let_go _

theorem obeys_start (h : w.Obeys l made gone diary) (k : Handle) :
    (w.start k).Obeys l made gone diary := by
  rw [start]
  split
  · split
    · exact h.still rfl rfl rfl
    · exact h.still rfl rfl (w.book.told_add_of_inner (e := .traced _) rfl)
  · exact h

theorem obeys_release (h : w.Obeys l made gone diary) (k : Handle) :
    (w.release k).Obeys l made gone diary := by
  rw [release]
  split
  · exact obeys_start h k
  · exact h

theorem obeys_scheduleSuspended (h : w.Obeys l made gone diary) (u : TestUnit) :
    (w.scheduleSuspended u).2.Obeys l (made ++ [.unit u]) gone diary := by
  have hgrown := h.grown (v := (w.scheduleSuspended u).2) rfl [] rfl ?_ fun _ => .waiting u
  · rwa [List.map_nil, List.append_nil] at hgrown
  · rw [List.append_nil]
    exact w.book.told_add_of_inner (e := .traced _) rfl

theorem obeys_schedule (h : w.Obeys l made gone diary) (u : TestUnit) :
    (w.schedule u).2.Obeys l (made ++ [.unit u]) gone diary :=
  obeys_release (obeys_scheduleSuspended h u) _

/-- **A test whose outcome is known is finished, and not started.** -/
theorem obeys_completed (hl : l.Calm) (h : w.Obeys l made gone diary) (o : Outcome) :
    ∃ v, w.completed o = (.ok ⟨o.test, w.cells.length⟩, v) ∧
      v.Obeys l (made ++ [.outcome o]) gone (diary ++ [(w.cells.length, .finished o)]) := by
  have hcalm : w.listener.panic? (.finished o) = none := h.listener ▸ hl _
  refine ⟨_, completed_calm hcalm, ?_⟩
  let v : World := { w with
    book := w.book.add (.notified (.finished o)), cells := w.cells ++ [.done o] }
  exact h.grown (v := v) rfl [.finished o] rfl (w.book.told_add _) fun _ => .given o

/-- A worker that takes an entry of the queue runs its unit. -/
theorem obeys_serveOne (hl : l.Calm) (h : w.Obeys l made gone diary) :
    ∃ more, w.serveOne.Obeys l made gone (diary ++ more) := by
  rw [serveOne]
  split
  · exact ⟨[], (List.append_nil diary).symm ▸ h⟩
  · rename_i i pool _
    have htaken : ({ w with pool } : World).Obeys l made gone diary := h.still rfl rfl rfl
    obtain ⟨more, hran⟩ := obeys_runCell hl htaken i
    refine ⟨more, ?_⟩
    rcases hrun : ({ w with pool } : World).runCell i with ⟨panic, v⟩
    rw [hrun] at hran
    cases panic with
    | none => exact hran.still rfl rfl rfl
    | some p => exact hran.still rfl rfl (v.book.told_add_of_inner (e := .traced _) rfl)

theorem obeys_poolRelation (l : Listener) (hl : l.Calm) (made : List Made) (gone : List Nat) :
    PoolRelation fun v w => ∀ diary, v.Obeys l made gone diary →
      ∃ more, w.Obeys l made gone (diary ++ more) where
  refl _ diary h := ⟨[], (List.append_nil diary).symm ▸ h⟩
  trans h k diary hu := by
    obtain ⟨first, hfirst⟩ := h diary hu
    obtain ⟨rest, hrest⟩ := k _ hfirst
    rw [List.append_assoc] at hrest
    exact ⟨_, hrest⟩
  serveOne _ _ h := obeys_serveOne hl h
  pool _ diary h := ⟨[], (List.append_nil diary).symm ▸ h.still rfl rfl rfl⟩

end World

/-! ### Outcomes of handles -/

/-- An outcome of a handle, behind what its cell holds and what the listener was told of that.  It is
about the test of the handle. -/
inductive Vouched (h : Handle) : Cell TestUnit Outcome → List Notice → Outcome → Prop
  | done (o : Outcome) {ns : List Notice} (ht : o.test = h.test) (hn : .finished o ∈ ns) :
      Vouched h (.done o) ns o
  | cancelled (f : Failure) {ns : List Notice} (hf : f.origin = .cancelled)
      (hn : .finished ⟨h.test, .failed f⟩ ∈ ns) : Vouched h .cancelled ns ⟨h.test, .failed f⟩
  | abandoned (f : Failure) {ns : List Notice} (hf : f.origin = .panic) :
      Vouched h .abandoned ns ⟨h.test, .failed f⟩

/-- Outcomes of handles that somebody holds are vouched for. -/
theorem Lifecycle.vouched {gone : Prop} {w : World} {h : Handle} {m : Made} {ns : List Notice}
    (hlife : Lifecycle gone m (w.cell h.cell) ns) (hheld : ¬gone) (ht : h.test = m.test)
    {o : Outcome} (ho : w.outcome? h = some o) : Vouched h (w.cell h.cell) ns o := by
  rw [World.outcome?] at ho
  generalize w.cell h.cell = c at hlife ho ⊢
  cases hlife with
  | waiting u => cases ho
  | running u => cases ho
  | finished u r _ =>
    cases ho
    exact .done _ ht.symm (List.mem_cons_of_mem _ List.mem_cons_self)
  | panicked u p _ =>
    cases ho
    exact .abandoned _ rfl
  | cancelled u =>
    cases ho
    refine .cancelled _ rfl ?_
    rw [ht]
    exact List.mem_cons_self
  | dropped u hg => exact absurd hg hheld
  | given o =>
    cases ho
    exact .done _ ht.symm List.mem_cons_self

/-! ### Desks -/

/-- A world with the handles that were made in it.  What a cell was made with is remembered, and so
are the numbers of the handles that were let go of. -/
structure Desk where
  world : World
  made : List Made := []
  handles : List Handle := []
  dropped : List Nat := []

namespace Desk

/-- Nothing was asked yet. -/
def fresh (pool : Pool Nat) (l : Listener) (policy : StartPolicy) : Desk :=
  { world := .fresh pool l policy }

/-- The handle of a number, counted in the order in which they were made, if somebody holds it. -/
def handle? (d : Desk) (k : Nat) : Option Handle :=
  if k ∈ d.dropped then none else d.handles[k]?

/-- A new handle is handed out. -/
def hand (d : Desk) (m : Made) (made : Handle × World) : Desk :=
  { d with world := made.2, made := d.made ++ [m], handles := d.handles ++ [made.1] }

/-- Something is done with a handle, if somebody holds it. -/
def handling (d : Desk) (k : Nat) (f : World → Handle → World) : Desk :=
  match d.handle? k with
  | some h => { d with world := f d.world h }
  | none => d

/-- Something that is asked of a scheduler, of a handle or of the pool, or that a thread does. -/
inductive Act where
  | schedule (u : TestUnit)
  | scheduleSuspended (u : TestUnit)
  | completed (o : Outcome)
  | start (k : Nat)
  | release (k : Nat)
  | wait (k : Nat)
  /-- Look at the outcome of a handle, if there is one. -/
  | outcome (k : Nat)
  | cancel (k : Nat)
  | drop (k : Nat)
  | runPool
  | shutDownPool
  /-- A thread begins the unit of a cell: a worker, or a caller who waits. -/
  | enter (i : Nat)
  /-- The unit that runs in a cell comes to its end. -/
  | leave (i : Nat)
  /-- A worker takes an entry of the queue, is done with it, or is kept busy. -/
  | pool (f : Pool Nat → Pool Nat)

/-- The desk behind an act. -/
def act (d : Desk) : Act → Desk
  | .schedule u => d.hand (.unit u) (d.world.schedule u)
  | .scheduleSuspended u => d.hand (.unit u) (d.world.scheduleSuspended u)
  | .completed o =>
    match d.world.completed o with
    | (.ok h, w) => d.hand (.outcome o) (h, w)
    | (.error _, w) => { d with world := w }
  | .start k => d.handling k World.start
  | .release k => d.handling k World.release
  | .wait k => d.handling k fun w h => (w.wait h).2
  | .outcome _ => d
  | .cancel k => d.handling k fun w h => (w.cancel h).2
  | .drop k =>
    match d.handle? k with
    | some h => { d with world := d.world.drop h, dropped := k :: d.dropped }
    | none => d
  | .runPool => { d with world := d.world.runPool }
  | .shutDownPool => { d with world := d.world.shutDownPool }
  | .enter i =>
    match d.world.cell i with
    | .suspended u => { d with world := d.world.begun i u }
    | _ => d
  | .leave i =>
    match d.world.cell i, d.made[i]? with
    | .running, some (.unit u) => { d with world := d.world.cameToEnd i u }
    | _, _ => d
  | .pool f => { d with world := { d.world with pool := f d.world.pool } }

/-- The desk behind several acts, one after another. -/
def actAll (d : Desk) (acts : List Act) : Desk :=
  acts.foldl act d

/-- A diary holds what the listener was told, and handles are about what they were made for. -/
structure KeepsDiary (l : Listener) (d : Desk) (diary : Diary) : Prop where
  obeys : d.world.Obeys l d.made d.dropped diary
  length : d.handles.length = d.made.length
  handles : ∀ k (h : Handle), d.handles[k]? = some h →
    h.cell = k ∧ ∃ m, d.made[k]? = some m ∧ h.test = m.test

variable {l : Listener} {d : Desk} {diary : Diary} {k : Nat} {h : Handle}

theorem handle?_eq_some : d.handle? k = some h ↔ k ∉ d.dropped ∧ d.handles[k]? = some h := by
  rw [handle?]
  split
  · simp_all
  · simp_all

theorem keepsDiary_fresh (pool : Pool Nat) (l : Listener) (policy : StartPolicy) :
    (fresh pool l policy).KeepsDiary l [] :=
  ⟨World.obeys_fresh pool l policy, rfl, nofun⟩

/-- Only the world changes. -/
theorem KeepsDiary.world (h : d.KeepsDiary l diary) {w : World} {more : Diary}
    (hw : w.Obeys l d.made d.dropped (diary ++ more)) :
    ({ d with world := w } : Desk).KeepsDiary l (diary ++ more) :=
  ⟨hw, h.length, h.handles⟩

theorem KeepsDiary.same (h : d.KeepsDiary l diary) : ∃ more, d.KeepsDiary l (diary ++ more) :=
  ⟨[], (List.append_nil diary).symm ▸ h⟩

theorem KeepsDiary.hand (hd : d.KeepsDiary l diary) {m : Made} {v : World} {ns : Diary}
    (hv : v.Obeys l (d.made ++ [m]) d.dropped (diary ++ ns)) :
    (d.hand m (⟨m.test, d.world.cells.length⟩, v)).KeepsDiary l (diary ++ ns) := by
  refine ⟨hv, ?_, fun k h hk => ?_⟩
  · show (d.handles ++ [_]).length = (d.made ++ [m]).length
    rw [List.length_append, List.length_append, hd.length]
    rfl
  · change (d.handles ++ [_])[k]? = some h at hk
    show h.cell = k ∧ ∃ n, (d.made ++ [m])[k]? = some n ∧ h.test = n.test
    rcases Nat.lt_or_ge k d.handles.length with hlt | hge
    · rw [List.getElem?_append_left hlt] at hk
      obtain ⟨hcell, n, hn, ht⟩ := hd.handles k h hk
      rw [List.getElem?_append_left (hd.length ▸ hlt)]
      exact ⟨hcell, n, hn, ht⟩
    · have hlast : k = d.handles.length := by
        have hlt := (List.getElem?_eq_some_iff.mp hk).1
        rw [List.length_append, List.length_singleton] at hlt
        omega
      subst hlast
      rw [List.getElem?_append_right (Nat.le_refl _), Nat.sub_self] at hk
      cases hk
      rw [List.getElem?_append_right (hd.length ▸ Nat.le_refl _), hd.length, Nat.sub_self]
      exact ⟨hd.obeys.length, m, rfl, rfl⟩

theorem KeepsDiary.handling (hd : d.KeepsDiary l diary) {f : World → Handle → World}
    (hf : ∀ h m, d.made[h.cell]? = some m → h.test = m.test →
      ∃ more, (f d.world h).Obeys l d.made d.dropped (diary ++ more)) :
    ∃ more, (d.handling k f).KeepsDiary l (diary ++ more) := by
  rw [Desk.handling]
  split
  · rename_i h hk
    obtain ⟨rfl, m, hm, ht⟩ := hd.handles k h (handle?_eq_some.mp hk).2
    obtain ⟨more, hmore⟩ := hf h m hm ht
    exact ⟨more, hd.world hmore⟩
  · exact hd.same

/-- **Every act keeps the protocol.** -/
theorem KeepsDiary.act (hl : l.Calm) (hd : d.KeepsDiary l diary) (a : Act) :
    ∃ more, (d.act a).KeepsDiary l (diary ++ more) := by
  have hquiet : d.world.Obeys l d.made d.dropped (diary ++ []) :=
    (List.append_nil diary).symm ▸ hd.obeys
  cases a with
  | schedule u => exact ⟨[], hd.hand (m := .unit u) (World.obeys_schedule hquiet u)⟩
  | scheduleSuspended u =>
    exact ⟨[], hd.hand (m := .unit u) (World.obeys_scheduleSuspended hquiet u)⟩
  | completed o =>
    obtain ⟨v, hv, hobeys⟩ := World.obeys_completed hl hd.obeys o
    rw [Desk.act, hv]
    exact ⟨_, hd.hand (m := .outcome o) hobeys⟩
  | start k => exact hd.handling fun h _ _ _ => ⟨[], World.obeys_start hquiet h⟩
  | release k => exact hd.handling fun h _ _ _ => ⟨[], World.obeys_release hquiet h⟩
  | wait k =>
    refine hd.handling (f := fun w h => (w.wait h).2) fun h _ _ _ => ?_
    rw [World.wait_eq]
    exact World.obeys_runCell hl hd.obeys h.cell
  | outcome k => exact hd.same
  | cancel k =>
    refine hd.handling (f := fun w h => (w.cancel h).2) fun h m hm ht => ?_
    exact World.obeys_cancel hl hd.obeys hm ht
  | drop k =>
    rw [Desk.act]
    split
    · rename_i h hk
      obtain ⟨rfl, -⟩ := hd.handles k h (handle?_eq_some.mp hk).2
      exact ⟨[], World.obeys_drop hquiet h, hd.length, hd.handles⟩
    · exact hd.same
  | runPool =>
    obtain ⟨more, hmore⟩ := (World.obeys_poolRelation l hl _ _).runPool d.world _ hd.obeys
    exact ⟨more, hd.world hmore⟩
  | shutDownPool =>
    obtain ⟨more, hmore⟩ := (World.obeys_poolRelation l hl _ _).shutDownPool d.world _ hd.obeys
    exact ⟨more, hd.world hmore⟩
  | enter i =>
    rw [Desk.act]
    split
    · rename_i u hu
      exact ⟨_, hd.world (World.obeys_begun hd.obeys hu)⟩
    · exact hd.same
  | leave i =>
    rw [Desk.act]
    split
    · rename_i u hr hm
      obtain ⟨more, hmore⟩ := World.obeys_cameToEnd hd.obeys hm hr
      exact ⟨more, hd.world hmore⟩
    · exact hd.same
  | pool f => exact ⟨[], hd.world (hquiet.still rfl rfl rfl)⟩

theorem KeepsDiary.actAll (hl : l.Calm) (acts : List Act) : ∀ {d : Desk} {diary : Diary},
    d.KeepsDiary l diary → ∃ more, (d.actAll acts).KeepsDiary l (diary ++ more) := by
  induction acts with
  | nil =>
    intro d diary hd
    exact hd.same
  | cons a rest ih =>
    intro d diary hd
    obtain ⟨first, hfirst⟩ := hd.act hl a
    obtain ⟨more, hmore⟩ := ih hfirst
    rw [List.append_assoc] at hmore
    exact ⟨_, hmore⟩

/-- The protocol, as those who hold handles see it. -/
structure Honest (l : Listener) (d : Desk) (diary : Diary) : Prop where
  obeys : d.world.Obeys l d.made d.dropped diary
  own : ∀ k h, d.handle? k = some h → h.cell = k ∧ d.made[k]?.map Made.test = some h.test
  outcomes : ∀ k h o, d.handle? k = some h → d.world.outcome? h = some o →
    Vouched h (d.world.cell k) (diary.about k) o

theorem KeepsDiary.honest (hd : d.KeepsDiary l diary) : d.Honest l diary := by
  refine ⟨hd.obeys, fun k h hk => ?_, fun k h o hk ho => ?_⟩
  · obtain ⟨hcell, m, hm, ht⟩ := hd.handles k h (handle?_eq_some.mp hk).2
    exact ⟨hcell, by rw [hm, ht]; rfl⟩
  · obtain ⟨hheld, hat⟩ := handle?_eq_some.mp hk
    obtain ⟨rfl, m, hm, ht⟩ := hd.handles k h hat
    exact (hd.obeys.lives _ m hm).vouched hheld ht ho

/-- **The listener protocol.**  Whatever is asked of the scheduler, of handles and of the pool, with
units that run while other things are asked: if the listener does not panic, what it was told
belongs to the lifecycles of the cells, in order, and outcomes of handles are vouched for.  So are
those that a wait returns.  What is asked later only adds to what the listener was told. -/
theorem listener_protocol (hl : l.Calm) (pool : Pool Nat) (policy : StartPolicy)
    (acts : List Act) :
    let d := (fresh pool l policy).actAll acts
    ∃ diary, d.Honest l diary ∧
      (∀ later, ∃ more, (d.actAll later).Honest l (diary ++ more)) ∧
      ∀ k h o v, d.handle? k = some h → d.world.wait h = (.ok (some o), v) →
        (d.act (.wait k)).world = v ∧
        ∃ more, (d.act (.wait k)).Honest l (diary ++ more) ∧
          Vouched h (v.cell k) (Diary.about (diary ++ more) k) o := by
  intro d
  obtain ⟨diary, hd⟩ : ∃ diary, d.KeepsDiary l diary :=
    (keepsDiary_fresh pool l policy).actAll hl acts
  refine ⟨diary, hd.honest, fun later => ?_, fun k h o v hk hwait => ?_⟩
  · obtain ⟨more, hmore⟩ := hd.actAll hl later
    exact ⟨more, hmore.honest⟩
  · have hact : d.act (.wait k) = { d with world := v } := by
      rw [Desk.act, Desk.handling, hk]
      dsimp only
      rw [hwait]
    obtain ⟨more, hmore⟩ := hd.act hl (.wait k)
    rw [hact] at hmore ⊢
    -- what a wait returns is the outcome that the cell has then
    have ho : v.outcome? h = some o := by
      rw [World.wait] at hwait
      split at hwait
      · cases hwait
      · injection hwait with hres hv
        rw [← hv]
        injection hres
    exact ⟨rfl, more, hmore.honest, hmore.honest.outcomes k h o hk ho⟩

/-- A unit made by hand. -/
def errand (name : String) (script : Callback) : TestUnit :=
  .scripted ⟨.root "root" (.site 0), name, .site 1⟩ script (.ok .pending)

/-- A test is cancelled while another one runs, which then panics; a third one is let go of, and the
last one is queued. -/
def busyActs : List Act :=
  [.schedule (errand "a" (.basic (.panic .other) .done)), .scheduleSuspended (errand "b" .done),
    .scheduleSuspended (errand "c" .done), .schedule (errand "d" .done), .enter 0, .cancel 1,
    .leave 0, .drop 2]

/-- The desk behind these acts. -/
def busyDesk : Desk :=
  (fresh (.held 1) .silent .eager).actAll busyActs

/-- The listener was told that the first test started and that the second one ended, and it is told of
the last one when somebody waits for that. -/
theorem listener_protocol_busyDesk :
    ∃ diary : Diary, busyDesk.Honest .silent diary ∧
      diary.about 0 = [.started (errand "a" .done).test] ∧
      (∃ o, diary.about 1 = [.finished o]) ∧ diary.about 2 = [] ∧
      ∃ more, .finished ⟨(errand "d" .done).test, .pending⟩ ∈ Diary.about (diary ++ more) 3 := by
  obtain ⟨diary, hd, -, hwait⟩ := listener_protocol (fun _ => rfl : Listener.silent.Calm) (.held 1)
    .eager busyActs
  refine ⟨diary, hd, ?_, ?_, ?_, ?_⟩
  · have h : Lifecycle (0 ∈ busyDesk.dropped) (.unit (errand "a" (.basic (.panic .other) .done)))
      .abandoned (diary.about 0) := hd.obeys.lives 0 _ rfl
    generalize diary.about 0 = ns at h ⊢
    cases h
    rfl
  · have h : Lifecycle (1 ∈ busyDesk.dropped) (.unit (errand "b" .done)) .cancelled
      (diary.about 1) := hd.obeys.lives 1 _ rfl
    generalize diary.about 1 = ns at h ⊢
    cases h
    exact ⟨_, rfl⟩
  · have h : Lifecycle (2 ∈ busyDesk.dropped) (.unit (errand "c" .done)) .discarded
      (diary.about 2) := hd.obeys.lives 2 _ rfl
    generalize diary.about 2 = ns at h ⊢
    cases h
    rfl
  · obtain ⟨-, more, -, hvouched⟩ := hwait 3 _ _ _ rfl rfl
    refine ⟨more, ?_⟩
    generalize Diary.about (diary ++ more) 3 = ns at hvouched ⊢
    cases hvouched with
    | done o ht hn => exact hn

end Desk

end TestTree
