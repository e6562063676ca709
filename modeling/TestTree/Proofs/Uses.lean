/-
What can be done with the handles of a discovery, as a sequence of moves.

* `Use`, `World.use`, `World.useAll` : what a caller does with handles and with the pool;
* `World.UseRelation`, `World.UseRelation.useAll` : what holds across every use, holds across uses one
  after another;
* `World.Move` : a cell is run, a test is cancelled, or the world rests;
* `World.useAll_moves` : **whatever is done with handles is a sequence of moves of them**;
* `World.runCell_suspended` : what running a cell does if the listener does not panic.

## Design notes

Every statement about uses is proved about moves.  A pool that serves its queue runs cells of
handles only, because nothing else was ever queued; `World.Within` says so.
-/
import Mathlib.Logic.Relation
import TestTree.Proofs.Growth

namespace TestTree

/-! ### Uses -/

/-- Something that is done with handles or with the pool. -/
inductive Use where
  | start (h : Handle)
  | startAll (hs : List Handle)
  | release (h : Handle)
  | wait (h : Handle)
  | waitAll (hs : List Handle)
  /-- Look at the outcome of a handle, if there is one. -/
  | outcome (h : Handle)
  | cancel (h : Handle)
  | cancelAll (hs : List Handle)
  | runPool
  | shutDownPool

/-- The handles that are used. -/
def Use.handles : Use → List Handle
  | start h => [h]
  | startAll hs => hs
  | release h => [h]
  | wait h => [h]
  | waitAll hs => hs
  | outcome h => [h]
  | cancel h => [h]
  | cancelAll hs => hs
  | runPool => []
  | shutDownPool => []

/-- The handles that are started, or that somebody waits for. -/
def Use.begins : Use → List Handle
  | start h => [h]
  | startAll hs => hs
  | wait h => [h]
  | waitAll hs => hs
  | _ => []

theorem Use.begins_subset (u : Use) : u.begins ⊆ u.handles := by
  cases u with
  | release _ | outcome _ | cancel _ | cancelAll _ => exact List.nil_subset _
  | _ => exact List.Subset.refl _

/-- The shelf that a unit owns. -/
def TestUnit.shelf? : TestUnit → Option Nat
  | direct _ _ _ shelf => some shelf
  | _ => none

namespace World

/-- The world behind a use. -/
def use (w : World) : Use → World
  | .start h => w.start h
  | .startAll hs => w.startAll hs
  | .release h => w.release h
  | .wait h => (w.wait h).2
  | .waitAll hs => (w.waitAll hs).2
  | .outcome _ => w
  | .cancel h => (w.cancel h).2
  | .cancelAll hs => (w.cancelAll hs).2
  | .runPool => w.runPool
  | .shutDownPool => w.shutDownPool

/-- The world behind several uses, one after another. -/
def useAll (w : World) (us : List Use) : World :=
  us.foldl use w

/-! ### What holds across uses -/

theorem wait_eq (w : World) (h : Handle) : (w.wait h).2 = (w.runCell h.cell).2 := by
  rw [wait]
  split <;> rename_i hr <;> rw [hr]

/-- A relation of the worlds before and behind whatever a pool does by itself. -/
structure PoolRelation (R : World → World → Prop) : Prop where
  refl : ∀ w, R w w
  trans : ∀ {u v w}, R u v → R v w → R u w
  serveOne : ∀ w : World, R w w.serveOne
  pool : ∀ {w : World} {pool : Pool Nat}, pool.queue = w.pool.queue → R w { w with pool }

namespace PoolRelation

variable {R : World → World → Prop} (H : PoolRelation R)
include H

theorem serve (n : Nat) : ∀ w, R w (World.serve n w) := by
  induction n with
  | zero => exact H.refl
  | succ n ih => exact fun w => H.trans (H.serveOne w) (ih _)

theorem runPool (w : World) : R w w.runPool := by
  rw [World.runPool]
  split
  · exact H.refl w
  · have hgo : R w { w with pool := w.pool.letGo } := H.pool rfl
    exact H.trans (H.trans hgo (H.serve _ _)) (H.pool rfl)

theorem shutDownPool (w : World) : R w w.shutDownPool := by
  rw [World.shutDownPool]
  split
  · exact H.refl w
  · have hgo : R w { w with pool := w.pool.refuse.letGo } := H.pool rfl
    exact H.trans hgo (H.serve _ _)

end PoolRelation

section Several

variable {R : World → World → Prop} (refl : ∀ w, R w w) (trans : ∀ {u v w}, R u v → R v w → R u w)
  {ks : List Handle}
include refl trans

theorem startAll_rel (step : ∀ k ∈ ks, ∀ w : World, R w (w.start k)) :
    ∀ w, R w (w.startAll ks) := by
  induction ks with
  | nil => exact refl
  | cons k rest ih =>
    intro w
    exact trans (step k List.mem_cons_self w)
      (ih (fun l hl => step l (List.mem_cons_of_mem _ hl)) _)

/-- A panic ends the waiting. -/
theorem waitEach_rel (step : ∀ k ∈ ks, ∀ w : World, R w (w.wait k).2) :
    ∀ w, R w (w.waitEach ks).2 := by
  induction ks with
  | nil => exact refl
  | cons k rest ih =>
    intro w
    have hfirst := step k List.mem_cons_self w
    have hrest := ih (fun l hl => step l (List.mem_cons_of_mem _ hl)) (w.wait k).2
    rw [waitEach]
    generalize w.wait k = first at hfirst hrest ⊢
    obtain ⟨_ | o, v⟩ := first
    · exact hfirst
    · dsimp only at hrest ⊢
      generalize v.waitEach rest = behind at hrest ⊢
      obtain ⟨_ | os, z⟩ := behind
      · exact trans hfirst hrest
      · exact trans hfirst hrest

/-- A panic ends the cancelling. -/
theorem cancelAll_rel (step : ∀ k ∈ ks, ∀ w : World, R w (w.cancel k).2) :
    ∀ w, R w (w.cancelAll ks).2 := by
  induction ks with
  | nil => exact refl
  | cons k rest ih =>
    intro w
    have hfirst := step k List.mem_cons_self w
    have hrest := ih (fun l hl => step l (List.mem_cons_of_mem _ hl)) (w.cancel k).2
    rw [cancelAll]
    generalize w.cancel k = first at hfirst hrest ⊢
    obtain ⟨_ | b, v⟩ := first
    · exact hfirst
    · dsimp only at hrest ⊢
      generalize v.cancelAll rest = behind at hrest ⊢
      obtain ⟨_ | n, z⟩ := behind
      · exact trans hfirst hrest
      · exact trans hfirst hrest

end Several

/-- A relation of the worlds before and behind a use, which starts and awaits only handles for which
`P` holds, and meets only handles for which `Q` does. -/
structure UseRelation (P Q : Handle → Prop) (R : World → World → Prop) : Prop
    extends PoolRelation R where
  start : ∀ {k}, P k → ∀ w : World, R w (w.start k)
  run : ∀ {k}, P k → ∀ w : World, R w (w.runCell k.cell).2
  release : ∀ {k}, Q k → ∀ w : World, R w (w.release k)
  cancel : ∀ {k}, Q k → ∀ w : World, R w (w.cancel k).2

namespace UseRelation

variable {P Q : Handle → Prop} {R : World → World → Prop} (H : UseRelation P Q R)
include H

theorem wait {k : Handle} (hk : P k) (w : World) : R w (w.wait k).2 := by
  rw [wait_eq]
  exact H.run hk w

theorem startAll {ks : List Handle} (hks : ∀ k ∈ ks, P k) : ∀ w, R w (w.startAll ks) :=
  startAll_rel H.refl H.trans fun k hk => H.start (hks k hk)

theorem use {u : Use} (hp : ∀ k ∈ u.begins, P k) (hq : ∀ k ∈ u.handles, Q k) (w : World) :
    R w (w.use u) := by
  cases u with
  | start k => exact H.start (hp k List.mem_cons_self) w
  | startAll ks => exact H.startAll hp w
  | release k => exact H.release (hq k List.mem_cons_self) w
  | wait k => exact H.wait (hp k List.mem_cons_self) w
  | waitAll ks =>
    exact H.trans (H.startAll hp w)
      (waitEach_rel H.refl H.trans (fun k hk => H.wait (hp k hk)) _)
  | outcome k => exact H.refl w
  | cancel k => exact H.cancel (hq k List.mem_cons_self) w
  | cancelAll ks => exact cancelAll_rel H.refl H.trans (fun k hk => H.cancel (hq k hk)) w
  | runPool => exact H.runPool w
  | shutDownPool => exact H.shutDownPool w

/-- **What holds across every use, holds across uses one after another.** -/
theorem useAll {us : List Use} (hp : ∀ u ∈ us, ∀ k ∈ u.begins, P k)
    (hq : ∀ u ∈ us, ∀ k ∈ u.handles, Q k) : ∀ w, R w (w.useAll us) := by
  induction us with
  | nil => exact H.refl
  | cons u rest ih =>
    intro w
    exact H.trans (H.use (hp u List.mem_cons_self) (hq u List.mem_cons_self) w)
      (ih (fun v hv => hp v (List.mem_cons_of_mem _ hv))
        (fun v hv => hq v (List.mem_cons_of_mem _ hv)) _)

end UseRelation

end World

/-! ### Moves -/

namespace World

/-- One thing that can happen to the handles `hs`. -/
inductive Move (hs : List Handle) : World → World → Prop
  | rest {v w : World} (h : v.Rests w) : Move hs v w
  | run {v : World} {h : Handle} (hh : h ∈ hs) : Move hs v (v.runCell h.cell).2
  | cancel {v : World} {h : Handle} (hh : h ∈ hs) : Move hs v (v.cancel h).2

/-- Moves one after another. -/
abbrev Moves (hs : List Handle) : World → World → Prop :=
  Relation.ReflTransGen (Move hs)

/-- What every move keeps, moves one after another keep. -/
theorem Moves.keep {hs : List Handle} {Inv : World → Prop}
    (step : ∀ {v w}, Move hs v w → Inv v → Inv w) {v w : World} (h : Moves hs v w) (hv : Inv v) :
    Inv w := by
  induction h with
  | refl => exact hv
  | tail _ hm ih => exact step hm ih

/-- Only handles of `hs` are queued. -/
def Within (hs : List Handle) (w : World) : Prop :=
  ∀ i ∈ w.pool.queue, ∃ h ∈ hs, h.cell = i

theorem within_nil {w : World} (h : w.pool.queue = []) : w.Within [] := by
  intro i hi
  rw [h] at hi
  cases hi

/-- The handles of `hs` were made in the world `w`, and nothing else is queued there that was not
queued before. -/
theorem Adds.within {v w : World} {hs ks : List Handle} (h : v.Adds w hs) (hk : v.Within ks) :
    w.Within (ks ++ hs) := by
  intro i hi
  rcases h.queue i hi with hi | hi
  · obtain ⟨k, hk, hki⟩ := hk i hi
    exact ⟨k, List.mem_append_left _ hk, hki⟩
  · have hmem : i ∈ hs.map Handle.cell := by
      rw [h.handles, List.mem_range'_1]
      have := h.length
      omega
    obtain ⟨k, hk, hki⟩ := List.mem_map.mp hmem
    exact ⟨k, List.mem_append_right _ hk, hki⟩

/-- The way from one world to another is a sequence of moves, if only handles of `hs` are queued,
and then only these are queued in the end. -/
def MovesWithin (hs : List Handle) (v w : World) : Prop :=
  v.Within hs → Moves hs v w ∧ w.Within hs

section MovesWithin

variable {hs : List Handle} {u v w : World}

theorem MovesWithin.refl (w : World) : MovesWithin hs w w :=
  fun hw => ⟨.refl, hw⟩

theorem MovesWithin.trans (h : MovesWithin hs u v) (k : MovesWithin hs v w) :
    MovesWithin hs u w := by
  intro hu
  obtain ⟨h1, h2⟩ := h hu
  obtain ⟨k1, k2⟩ := k h2
  exact ⟨h1.trans k1, k2⟩

theorem Rests.movesWithin (h : v.Rests w)
    (hq : ∀ i ∈ w.pool.queue, i ∈ v.pool.queue ∨ ∃ h ∈ hs, h.cell = i) : MovesWithin hs v w :=
  fun hv => ⟨.single (.rest h), fun i hi => (hq i hi).elim (hv i) id⟩

theorem movesWithin_trace (w : World) (l : Level) (m : String) (f : List (String × String)) :
    MovesWithin hs w (w.trace l m f) :=
  Rests.movesWithin ⟨rfl, rfl, rfl, rfl, rfl, rfl, rfl⟩ fun _ hi => .inl hi

/-! ### What a unit can change -/

section Shelves

variable {v : World} {i k : Nat}

theorem shelf_putCloset_of_ne (h : i ≠ k) (c : Closet Closure) :
    (v.putCloset k c).shelf i = v.shelf i := by
  rw [shelf, putCloset, List.getElem?_set_ne h.symm]
  rfl

/-- What was on a shelf that is replaced is not there any more, whether there was such a shelf. -/
theorem shelf_putCloset_nil (k : Nat) (n : Notebook) : (v.putCloset k ⟨[], n⟩).shelf k = [] := by
  rw [shelf, putCloset]
  by_cases hk : k < v.shelves.length
  · simp [hk]
  · simp [Nat.le_of_not_lt hk]

theorem shelf_putCloset_self (h : k < v.shelves.length) (c : Closet Closure) :
    (v.putCloset k c).shelf k = c.shelf := by
  rw [shelf, putCloset]
  simp [h]

theorem length_putCloset (k : Nat) (c : Closet Closure) :
    (v.putCloset k c).shelves.length = v.shelves.length :=
  List.length_set ..

end Shelves

theorem runUnit_eq (w : World) (u : TestUnit) :
    ∃ book shelves, (w.runUnit u).2 = { w with book, shelves } := by
  cases u with
  | direct d body scope shelf => exact ⟨_, _, rfl⟩
  | replayed d root => exact ⟨_, _, rfl⟩
  | scripted d script result =>
    rw [runUnit]
    split
    · exact ⟨_, _, rfl⟩
    · exact ⟨_, _, rfl⟩

@[simp] theorem cells_runUnit (w : World) (u : TestUnit) : (w.runUnit u).2.cells = w.cells := by
  obtain ⟨_, _, h⟩ := runUnit_eq w u
  rw [h]

@[simp] theorem listener_runUnit (w : World) (u : TestUnit) :
    (w.runUnit u).2.listener = w.listener := by
  obtain ⟨_, _, h⟩ := runUnit_eq w u
  rw [h]

@[simp] theorem pool_runUnit (w : World) (u : TestUnit) : (w.runUnit u).2.pool = w.pool := by
  obtain ⟨_, _, h⟩ := runUnit_eq w u
  rw [h]

theorem dropUnit_direct (w : World) (d : Description) (body : Body) (scope : Scope) (shelf : Nat) :
    ∃ book, w.dropUnit (.direct d body scope shelf) = { (w.closeShelf shelf).2 with book } ∧
      (w.closeShelf shelf).2.Rests { (w.closeShelf shelf).2 with book } :=
  foldl_trace_eq (w.closeShelf shelf).1 _ _ (w.closeShelf shelf).2

theorem dropUnit_eq (w : World) (u : TestUnit) :
    ∃ book shelves, w.dropUnit u = { w with book, shelves } ∧ book.deeds = w.book.deeds := by
  cases u with
  | direct d body scope shelf =>
    obtain ⟨book, h, hr⟩ := w.dropUnit_direct d body scope shelf
    exact ⟨book, _, h, (Notebook.deeds_of_acts hr.acts).trans (Notebook.deeds_sweep _ _)⟩
  | _ => exact ⟨_, _, rfl, rfl⟩

@[simp] theorem cells_dropUnit (w : World) (u : TestUnit) : (w.dropUnit u).cells = w.cells := by
  obtain ⟨_, _, h, -⟩ := dropUnit_eq w u
  rw [h]

@[simp] theorem listener_dropUnit (w : World) (u : TestUnit) :
    (w.dropUnit u).listener = w.listener := by
  obtain ⟨_, _, h, -⟩ := dropUnit_eq w u
  rw [h]

@[simp] theorem pool_dropUnit (w : World) (u : TestUnit) : (w.dropUnit u).pool = w.pool := by
  obtain ⟨_, _, h, -⟩ := dropUnit_eq w u
  rw [h]

theorem deeds_dropUnit (w : World) (u : TestUnit) : (w.dropUnit u).book.deeds = w.book.deeds := by
  obtain ⟨_, _, h, hd⟩ := dropUnit_eq w u
  rw [h]
  exact hd

theorem pool_of_notify {w v : World} {n : Notice} {x : Option Payload}
    (h : w.notify n = (x, v)) : v.pool = w.pool :=
  (congrArg (fun y => y.2.pool) h).symm

theorem pool_runCell (w : World) (i : Nat) : (w.runCell i).2.pool = w.pool := by
  rw [runCell]
  -- the listener can panic at the start and at the end, and the unit in between
  split
  · rename_i u _
    split
    · rename_i p v hn
      have hv : v.pool = (w.setCell i .running).pool := pool_of_notify hn
      exact (pool_dropUnit v u).trans hv
    · rename_i v hn
      have hv : v.pool = (w.setCell i .running).pool := pool_of_notify hn
      have hu := (pool_runUnit v u).trans hv
      split
      · rename_i hrun
        rw [hrun] at hu
        exact hu
      · rename_i x hrun
        rw [hrun] at hu
        split
        · rename_i hf
          exact (pool_of_notify hf).trans hu
        · rename_i hf
          exact (pool_of_notify hf).trans hu
  · rfl

theorem pool_cancel (w : World) (h : Handle) : (w.cancel h).2.pool = w.pool := by
  rw [cancel]
  split
  · rename_i u _
    have hdrop := pool_dropUnit (w.setCell h.cell .cancelled) u
    dsimp only
    split
    · rename_i hn
      exact (pool_of_notify hn).trans hdrop
    · rename_i hn
      exact (pool_of_notify hn).trans hdrop
  · rfl

theorem movesWithin_runCell {h : Handle} (hh : h ∈ hs) (w : World) :
    MovesWithin hs w (w.runCell h.cell).2 := by
  intro hw
  refine ⟨.single (.run hh), ?_⟩
  rw [Within, pool_runCell]
  exact hw

theorem movesWithin_cancel {h : Handle} (hh : h ∈ hs) (w : World) :
    MovesWithin hs w (w.cancel h).2 := by
  intro hw
  refine ⟨.single (.cancel hh), ?_⟩
  rw [Within, pool_cancel]
  exact hw

/-! ### Uses are moves -/

theorem movesWithin_start {h : Handle} (hh : h ∈ hs) (w : World) :
    MovesWithin hs w (w.start h) := by
  rw [start]
  split
  · cases hp : w.pool.submit? h.cell with
    | none => exact movesWithin_trace _ _ _ _
    | some pool =>
      -- all that is queued is the handle itself
      refine Rests.movesWithin ⟨rfl, rfl, rfl, rfl, rfl, rfl, rfl⟩ fun i hi => ?_
      rw [Pool.submit?] at hp
      split at hp
      · cases hp
      · cases hp
        rcases List.mem_append.mp hi with hi | hi
        · exact .inl hi
        · exact .inr ⟨h, hh, (List.mem_singleton.mp hi).symm⟩
  · exact .refl _

theorem movesWithin_release {h : Handle} (hh : h ∈ hs) (w : World) :
    MovesWithin hs w (w.release h) := by
  rw [release]
  split
  · exact movesWithin_start hh w
  · exact .refl _

theorem movesWithin_serveOne (w : World) : MovesWithin hs w w.serveOne := by
  intro hw
  rw [serveOne, Pool.take?]
  cases hq : w.pool.queue with
  | nil => exact MovesWithin.refl w hw
  | cons i rest =>
    -- what a worker takes was queued for a handle, so the cell that it runs is one of ours
    obtain ⟨h, hh, rfl⟩ := hw i (by rw [hq]; exact List.mem_cons_self)
    let v : World := { w with pool := { w.pool with queue := rest, active := w.pool.active + 1 } }
    have htake : MovesWithin hs w v := by
      refine Rests.movesWithin ⟨rfl, rfl, rfl, rfl, rfl, rfl, rfl⟩ fun j hj => .inl ?_
      rw [hq]
      exact List.mem_cons_of_mem _ hj
    have hrun := htake.trans (movesWithin_runCell hh v)
    have hfinish : ∀ u : World, MovesWithin hs u { u with pool := u.pool.finish } := fun u =>
      Rests.movesWithin ⟨rfl, rfl, rfl, rfl, rfl, rfl, rfl⟩ fun j hj => .inl hj
    dsimp only
    cases hp : (v.runCell h.cell).1 with
    | none => exact (hrun.trans (hfinish _)) hw
    | some p => exact ((hrun.trans (movesWithin_trace _ _ _ _)).trans (hfinish _)) hw

theorem movesWithin_pool (w : World) {pool : Pool Nat} (hq : pool.queue = w.pool.queue) :
    MovesWithin hs w { w with pool } :=
  Rests.movesWithin ⟨rfl, rfl, rfl, rfl, rfl, rfl, rfl⟩ fun _ hi => .inl (hq ▸ hi)

theorem movesWithin_useRelation (hs : List Handle) :
    UseRelation (· ∈ hs) (· ∈ hs) (MovesWithin hs) where
  refl := .refl
  trans := .trans
  serveOne := movesWithin_serveOne
  pool hq := movesWithin_pool _ hq
  start := movesWithin_start
  run := movesWithin_runCell
  release := movesWithin_release
  cancel := movesWithin_cancel

theorem movesWithin_use {u : Use} (hu : ∀ h ∈ u.handles, h ∈ hs) (w : World) :
    MovesWithin hs w (w.use u) :=
  (movesWithin_useRelation hs).use (fun h hh => hu h (u.begins_subset hh)) hu w

/-- **Whatever is done with handles is a sequence of moves of them.** -/
theorem useAll_moves {us : List Use} (hus : ∀ u ∈ us, ∀ h ∈ u.handles, h ∈ hs) :
    ∀ w : World, MovesWithin hs w (w.useAll us) :=
  (movesWithin_useRelation hs).useAll (fun u hu h hh => hus u hu h (u.begins_subset hh)) hus

end MovesWithin

/-! ### Cells that run -/

section Cells

variable {w : World} {i : Nat} {u : TestUnit}

theorem cell_setCell_self {c : Cell TestUnit Outcome} (h : i < w.cells.length) :
    (w.setCell i c).cell i = c := by
  simp [cell, setCell, h]

theorem cell_setCell_of_ne {c : Cell TestUnit Outcome} {j : Nat} (h : j ≠ i) :
    (w.setCell i c).cell j = w.cell j := by
  simp [cell, setCell, List.getElem?_set_ne h.symm]

theorem lt_of_suspended (h : w.cell i = .suspended u) : i < w.cells.length := by
  rw [cell] at h
  by_contra hi
  rw [List.getElem?_eq_none (Nat.le_of_not_lt hi)] at h
  cases h

/-- The world in which a unit begins to run in a cell. -/
def begun (w : World) (i : Nat) (u : TestUnit) : World :=
  { w.setCell i .running with book := w.book.add (.notified (.started u.test)) }

/-- The world in which a unit has run in a cell. -/
def ended (w : World) (i : Nat) (o : Outcome) : World :=
  { w with book := w.book.add (.notified (.finished o)) }.setCell i (.done o)

/-- The world in which a test is cancelled. -/
def withdrawn (w : World) (h : Handle) (u : TestUnit) : World :=
  let v := ((w.setCell h.cell .cancelled).dropUnit u).trace .debug "cancelled test"
    [("test", h.test.display)]
  { v with book := v.book.add (.notified (.finished (unfinished h.test .cancelled))) }

theorem runCell_of_ne (h : ∀ u, w.cell i ≠ .suspended u) : w.runCell i = (none, w) := by
  rw [runCell]
  split
  · rename_i u hu
    exact absurd hu (h u)
  · rfl

/-- A unit that runs to its end, if the listener does not panic. -/
theorem runCell_suspended (hw : w.listener.Calm) (hu : w.cell i = .suspended u)
    {res : TestResult} {v : World} (hr : (w.begun i u).runUnit u = (.ok res, v)) :
    w.runCell i = (none, v.ended i ⟨u.test, res⟩) := by
  -- the listener is still the same behind the unit
  have hv : v.listener.Calm := by
    have hl := listener_runUnit (w.begun i u) u
    rw [hr] at hl
    rw [show v.listener = w.listener from hl]
    exact hw
  have hstart : (w.setCell i .running).notify (.started u.test) = (none, w.begun i u) :=
    Prod.ext (hw _) rfl
  have hfinish : v.notify (.finished ⟨u.test, res⟩) = (none,
      { v with book := v.book.add (.notified (.finished ⟨u.test, res⟩)) }) :=
    Prod.ext (hv _) rfl
  rw [runCell, hu]
  dsimp only
  rw [hstart]
  dsimp only
  rw [hr]
  dsimp only
  rw [hfinish]
  rfl

/-- A unit that has run leaves its outcome in its cell, and no other cell changes. -/
theorem cell_ended_self {v : World} {r : Except Payload TestResult} {o : Outcome}
    (hu : w.cell i = .suspended u) (hr : (w.begun i u).runUnit u = (r, v)) :
    (v.ended i o).cell i = .done o := by
  have hc := cells_runUnit (w.begun i u) u
  rw [hr] at hc
  refine cell_setCell_self ?_
  show i < v.cells.length
  rw [show v.cells = (w.setCell i .running).cells from hc, setCell, List.length_set]
  exact lt_of_suspended hu

theorem cell_ended_of_ne {v : World} {r : Except Payload TestResult} {o : Outcome} {j : Nat}
    (hr : (w.begun i u).runUnit u = (r, v)) (hj : j ≠ i) : (v.ended i o).cell j = w.cell j := by
  have hc := cells_runUnit (w.begun i u) u
  rw [hr] at hc
  rw [ended, cell_setCell_of_ne hj]
  show v.cells[j]?.getD .discarded = _
  rw [show v.cells = (w.setCell i .running).cells from hc]
  exact cell_setCell_of_ne hj

theorem cancel_of_ne {h : Handle} (hu : ∀ u, w.cell h.cell ≠ .suspended u) :
    w.cancel h = (.ok false, w) := by
  rw [cancel]
  split
  · rename_i u hc
    exact absurd hc (hu u)
  · rfl

theorem cancel_suspended (hw : w.listener.Calm) {h : Handle} (hu : w.cell h.cell = .suspended u) :
    w.cancel h = (.ok true, w.withdrawn h u) := by
  have hv : ((w.setCell h.cell .cancelled).dropUnit u).listener.Calm := by
    rw [listener_dropUnit]
    exact hw
  have hfinish : ∀ n, (((w.setCell h.cell .cancelled).dropUnit u).trace .debug "cancelled test"
      [("test", h.test.display)]).listener.panic? n = none := hv
  rw [cancel, hu]
  dsimp only
  rw [notify, Notebook.notify, hfinish]
  rfl

@[simp] theorem listener_withdrawn (w : World) (h : Handle) (u : TestUnit) :
    (w.withdrawn h u).listener = w.listener :=
  listener_dropUnit (w.setCell h.cell .cancelled) u

/-- Nothing keeps several tests from being cancelled, if the listener does not panic. -/
theorem cancelAll_calm (hs : List Handle) : ∀ {w : World}, w.listener.Calm →
    ∃ count v, w.cancelAll hs = (.ok count, v) := by
  induction hs with
  | nil => intro w _; exact ⟨0, w, rfl⟩
  | cons h rest ih =>
    intro w hw
    obtain ⟨b, v, hc, hv⟩ : ∃ b v, w.cancel h = (.ok b, v) ∧ v.listener.Calm := by
      by_cases hu : ∃ u, w.cell h.cell = .suspended u
      · obtain ⟨u, hu⟩ := hu
        exact ⟨_, _, cancel_suspended hw hu, by rwa [listener_withdrawn]⟩
      · exact ⟨_, _, cancel_of_ne fun u hc => hu ⟨u, hc⟩, hw⟩
    obtain ⟨count, z, hz⟩ := ih hv
    rw [cancelAll, hc]
    dsimp only
    rw [hz]
    exact ⟨_, _, rfl⟩

/-- A test that was cancelled has a cell of its own, and no other cell changes. -/
theorem cell_withdrawn_self {h : Handle} (hu : w.cell h.cell = .suspended u) :
    (w.withdrawn h u).cell h.cell = .cancelled := by
  show ((w.setCell h.cell .cancelled).dropUnit u).cell h.cell = _
  rw [cell, cells_dropUnit]
  exact cell_setCell_self (lt_of_suspended hu)

theorem cell_withdrawn_of_ne {h : Handle} {j : Nat} (hj : j ≠ h.cell) :
    (w.withdrawn h u).cell j = w.cell j := by
  show ((w.setCell h.cell .cancelled).dropUnit u).cell j = _
  rw [cell, cells_dropUnit]
  exact cell_setCell_of_ne hj

end Cells

end World

end TestTree
