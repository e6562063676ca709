/-
Handles that are cancelled, and what the passes of a discovery collect.

* `World.useAll_cell`, `useAll_idle` : what later uses do to cells that are final, and where all
  are;
* `World.cancelAll_cancels` : every test that has not begun is cancelled, and the listener is told
  once of each;
* `Collects`, `RootContext.Begins.collects` : the handles that the passes so far have made, and what
  the listener was told of them.

## Design notes

Builders that discard structural errors are not excluded.  In their passes two units can own the
shelf, and the one that is cancelled first closes it.
-/
import TestTree.Proofs.PassCustody

namespace TestTree

namespace World

variable {u v w z : World} {es fs : List Event} {hs ks : List Handle} {unit : TestUnit}
    {i j k : Nat}

/-! ### Later uses -/

/-- A unit that runs, or that the listener keeps from running, leaves its cell final.  Behind it the
listener is told of it at most. -/
theorem runCell_eq (hu : v.cell i = .suspended unit) : ∃ c book shelves,
    (v.runCell i).2 = { v with cells := v.cells.set i c, book, shelves } ∧
      (c = .abandoned ∨ ∃ o, c = .done o) ∧ ∃ told : List Notice,
        (¬ v.listener.Calm ∧ book.deeds = told.map .notified ++ v.book.deeds) ∨
          book.deeds = told.map .notified ++ ((v.begun i unit).runUnit unit).2.book.deeds := by
  have hset : ∀ (book : Notebook) (shelves : List (Shelf Closure)) (c : Cell TestUnit Outcome),
      ({ v.begun i unit with book, shelves }).setCell i c
        = { v with cells := v.cells.set i c, book, shelves } :=
    fun book shelves c => congrArg (fun cells => { v with cells, book, shelves }) (List.set_set ..)
  have hstart : (v.setCell i .running).notify (.started unit.test)
      = (v.listener.panic? (.started unit.test), v.begun i unit) := rfl
  rw [runCell, hu]
  dsimp only
  rw [hstart]
  cases hp : v.listener.panic? (.started unit.test) with
  | some p =>
    obtain ⟨book, shelves, hdrop, hdeeds⟩ := (v.begun i unit).dropUnit_eq unit
    have hpanics : ¬ v.listener.Calm := fun hcalm => by
      rw [hcalm] at hp
      cases hp
    refine ⟨.abandoned, book, shelves, ?_, .inl rfl, [.started unit.test], .inl ⟨hpanics, hdeeds⟩⟩
    dsimp only
    rw [hdrop, hset]
  | none =>
    obtain ⟨book, shelves, hran⟩ := (v.begun i unit).runUnit_eq unit
    dsimp only
    generalize (v.begun i unit).runUnit unit = ran at hran
    obtain ⟨p | result, x⟩ := ran
    · obtain rfl : x = _ := hran
      exact ⟨.abandoned, book, shelves, hset _ _ _, .inl rfl, [], .inr rfl⟩
    · obtain rfl : x = _ := hran
      let told := book.add (.notified (.finished ⟨unit.test, result⟩))
      dsimp only [notify, Notebook.notify]
      cases (v.begun i unit).listener.panic? (.finished ⟨unit.test, result⟩) with
      | some p =>
        exact ⟨.abandoned, told, shelves, hset _ _ _, .inl rfl, [.finished ⟨unit.test, result⟩],
          .inr rfl⟩
      | none =>
        exact ⟨.done ⟨unit.test, result⟩, told, shelves, hset _ _ _, .inr ⟨_, rfl⟩,
          [.finished ⟨unit.test, result⟩], .inr rfl⟩

/-- The cell `i` is as it was, or its unit came to its end. -/
def KeepsCell (v w : World) (i : Nat) : Prop :=
  w.cell i = v.cell i ∨ (v.cell i).isSuspended = true ∧ (w.cell i).isSuspended = false

theorem KeepsCell.trans (h : u.KeepsCell v i) (k : v.KeepsCell w i) : u.KeepsCell w i := by
  rcases k with k | ⟨hv, hw⟩
  · rcases h with h | ⟨hu, hv⟩
    · exact .inl (k.trans h)
    · exact .inr ⟨hu, k ▸ hv⟩
  · rcases h with h | ⟨-, hv'⟩
    · exact .inr ⟨h ▸ hv, hw⟩
    · rw [hv] at hv'
      cases hv'

/-- A unit that waits has been there from the beginning. -/
theorem KeepsCell.eq_suspended (h : v.KeepsCell w i) (hw : w.cell i = .suspended unit) :
    v.cell i = .suspended unit := by
  rcases h with hsame | ⟨-, hend⟩
  · rw [← hsame, hw]
  · rw [hw] at hend
    cases hend

/-- One cell becomes final that was not. -/
theorem keepsCell_set {c : Cell TestUnit Outcome} (hu : v.cell j = .suspended unit)
    (hc : c.isSuspended = false) (hw : w.cells = v.cells.set j c) : v.KeepsCell w i := by
  by_cases hij : i = j
  · subst hij
    refine .inr ⟨by rw [hu]; rfl, ?_⟩
    rwa [cell_of_set hw (lt_of_suspended hu)]
  · exact .inl (cell_of_set_ne hw hij)

theorem Move.keepsCell (h : Move hs v w) : v.KeepsCell w i := by
  cases h with
  | rest h => exact .inl (congrFun (cell_congr h.cells) i)
  | @run k hk =>
    by_cases hu : ∃ unit, v.cell k.cell = .suspended unit
    · obtain ⟨unit, hu⟩ := hu
      obtain ⟨c, book, shelves, hw, hc, -⟩ := runCell_eq hu
      refine keepsCell_set hu ?_ (congrArg World.cells hw)
      rcases hc with rfl | ⟨o, rfl⟩
      · rfl
      · rfl
    · rw [runCell_of_ne fun unit h => hu ⟨unit, h⟩]
      exact .inl rfl
  | @cancel k hk =>
    rcases v.cancel_cases k with ⟨-, hc⟩ | ⟨unit, es, hu, hr⟩
    · rw [hc]
      exact .inl rfl
    · obtain ⟨c, hc, hcells⟩ := hr.cells
      exact keepsCell_set hu hc hcells

/-- Where no unit is left, nothing that can be done runs one. -/
theorem Move.idle (h : Move hs v w) (hv : ∀ i, (v.cell i).isSuspended = false) :
    w.book.bodies = v.book.bodies := by
  have hne : ∀ i unit, v.cell i ≠ .suspended unit := by
    intro i unit hu
    have hi := hv i
    rw [hu] at hi
    cases hi
  cases h with
  | rest h => exact Notebook.bodies_of_acts h.acts
  | run hk => rw [runCell_of_ne (hne _)]
  | cancel hk => rw [cancel_of_ne (hne _)]

/-- What uses one after another are made of. -/
theorem moves_useAll (w : World) (us : List Use) : ∃ hs, Moves hs w (w.useAll us) := by
  -- what is queued is handled like what is used
  let queued := w.pool.queue.map fun i => (⟨default, i⟩ : Handle)
  let used := us.flatMap Use.handles
  have hwithin : w.Within (queued ++ used) := fun i hi =>
    ⟨⟨default, i⟩, List.mem_append_left _ (List.mem_map_of_mem hi), rfl⟩
  have hused : ∀ u ∈ us, ∀ h ∈ u.handles, h ∈ queued ++ used := fun u hu h hh =>
    List.mem_append_right _ (List.mem_flatMap.mpr ⟨u, hu, hh⟩)
  exact ⟨queued ++ used, (useAll_moves hused w hwithin).1⟩

/-- **Whatever is done later, a cell that is final stays as it is.** -/
theorem useAll_cell (w : World) (us : List Use) (i : Nat) : w.KeepsCell (w.useAll us) i := by
  obtain ⟨hs, hmoves⟩ := w.moves_useAll us
  exact hmoves.keep (fun hm (h : w.KeepsCell _ i) => h.trans hm.keepsCell) (.inl rfl)

/-- **Where all cells are final, no body is run any more.** -/
theorem useAll_idle (hw : ∀ i, (w.cell i).isSuspended = false) (us : List Use) :
    (w.useAll us).book.bodies = w.book.bodies := by
  obtain ⟨hs, hmoves⟩ := w.moves_useAll us
  let Idle (v : World) : Prop := (∀ i, (v.cell i).isSuspended = false) ∧
    v.book.bodies = w.book.bodies
  have hstep : ∀ {v z : World}, Move hs v z → Idle v → Idle z := by
    intro v z hm ⟨hv, hb⟩
    refine ⟨fun i => ?_, (hm.idle hv).trans hb⟩
    rcases hm.keepsCell (i := i) with hz | ⟨hi, -⟩
    · rw [hz]
      exact hv i
    · rw [hv i] at hi
      cases hi
  exact (hmoves.keep hstep ⟨hw, rfl⟩).2

/-- Where no new cell has a unit any more, new cells stay as they are, and what can still be run was
there before. -/
theorem later_of_final (hold : ∀ i, i < w.cells.length → z.cell i = w.cell i)
    (hnew : ∀ i, w.cells.length ≤ i → (z.cell i).isSuspended = false)
    (hbodies : z.book.bodies = w.book.bodies) (us : List Use) :
    (∀ i, w.cells.length ≤ i → (z.useAll us).cell i = z.cell i) ∧
      (∀ i unit, (z.useAll us).cell i = .suspended unit → w.cell i = .suspended unit) ∧
      ((∀ i, (w.cell i).isSuspended = false) → (z.useAll us).book.bodies = w.book.bodies) := by
  refine ⟨fun i hi => (z.useAll_cell us i).resolve_right fun hk => ?_, fun i unit hu => ?_,
    fun hidle => ?_⟩
  · rw [hnew i hi] at hk
    cases hk.1
  · have hz := (z.useAll_cell us i).eq_suspended hu
    by_cases hi : i < w.cells.length
    · rwa [hold i hi] at hz
    · have hfinal := hnew i (Nat.le_of_not_lt hi)
      rw [hz] at hfinal
      cases hfinal
  · rw [z.useAll_idle (fun i => ?_) us, hbodies]
    by_cases hi : i < w.cells.length
    · rw [hold i hi]
      exact hidle i
    · exact hnew i (Nat.le_of_not_lt hi)

/-! ### Tests that are cancelled -/

/-- The outcome that the listener is told of when a test is cancelled. -/
def withdrawal? (w : World) (h : Handle) : Option Outcome :=
  if (w.cell h.cell).isSuspended then some (unfinished h.test .cancelled) else none

/-- The tests `hs` were cancelled between `v` and `w`, while `es` were written. -/
structure Cancels (v w : World) (hs : List Handle) (es : List Event) : Prop
    extends Conserves v w es where
  length : w.cells.length = v.cells.length
  bodies : w.book.bodies = v.book.bodies
  cell_of_ne : ∀ i, i ∉ hs.map Handle.cell → w.cell i = v.cell i
  /-- A test that had not begun is cancelled now, and any other one is as it was. -/
  cell : ∀ h ∈ hs, (v.cell h.cell).isSuspended = true ∧ w.cell h.cell = .cancelled ∨
    (v.cell h.cell).isSuspended = false ∧ w.cell h.cell = v.cell h.cell
  shelves : w.shelves.length = v.shelves.length
  shelf : ∀ k, (∀ h ∈ hs, (v.cell h.cell).shelf? ≠ some k) → w.shelf k = v.shelf k
  held : ∀ n₀ k₀ hole, v.Held n₀ k₀ hole → w.Held n₀ k₀ hole
  told : finishedIn es = hs.filterMap v.withdrawal?

theorem Cancels.trans (h : u.Cancels v hs es) (k : v.Cancels w ks fs)
    (hd : ∀ x ∈ ks, x.cell ∉ hs.map Handle.cell) : u.Cancels w (hs ++ ks) (es ++ fs) where
  toConserves := h.toConserves.trans k.toConserves
  length := k.length.trans h.length
  bodies := k.bodies.trans h.bodies
  cell_of_ne i hi := by
    rw [List.map_append, List.mem_append, not_or] at hi
    rw [k.cell_of_ne i hi.2, h.cell_of_ne i hi.1]
  cell x hx := by
    rcases List.mem_append.mp hx with hx | hx
    · have hne : x.cell ∉ ks.map Handle.cell := by
        intro hmem
        obtain ⟨y, hy, hyx⟩ := List.mem_map.mp hmem
        exact hd y hy (hyx ▸ List.mem_map_of_mem hx)
      rw [k.cell_of_ne x.cell hne]
      exact h.cell x hx
    · rw [← h.cell_of_ne x.cell (hd x hx)]
      exact k.cell x hx
  shelves := k.shelves.trans h.shelves
  shelf j hj := by
    have hv : ∀ x ∈ ks, (v.cell x.cell).shelf? ≠ some j := by
      intro x hx
      rw [h.cell_of_ne x.cell (hd x hx)]
      exact hj x (List.mem_append_right _ hx)
    rw [k.shelf j hv, h.shelf j fun x hx => hj x (List.mem_append_left _ hx)]
  held n₀ k₀ hole hu := k.held n₀ k₀ hole (h.held n₀ k₀ hole hu)
  told := by
    have hcell : ks.filterMap v.withdrawal? = ks.filterMap u.withdrawal? := by
      refine List.filterMap_congr fun x hx => ?_
      rw [withdrawal?, withdrawal?, h.cell_of_ne x.cell (hd x hx)]
    rw [finishedIn_append, h.told, k.told, hcell, List.filterMap_append]

theorem cancels_nil (w : World) : w.Cancels w [] [] where
  toConserves := conserves_still w.book.writes_refl rfl rfl rfl
  length := rfl
  bodies := rfl
  cell_of_ne _ _ := rfl
  cell _ hx := absurd hx List.not_mem_nil
  shelves := rfl
  shelf _ _ := rfl
  held _ _ _ h := h
  told := rfl

/-- One test is cancelled. -/
theorem cancel_cancels (w : World) (h : Handle) : ∃ es, w.Cancels (w.cancel h).2 [h] es := by
  by_cases hu : ∃ unit, w.cell h.cell = .suspended unit
  · obtain ⟨unit, hu⟩ := hu
    obtain ⟨es, hr, htold⟩ := cancel_retires hu
    refine ⟨es, hr.conserves, hr.length, ?_, fun i hi => hr.cell_of_ne ?_, fun x hx => ?_,
      hr.length_shelves, fun k hk => hr.shelf_of_ne ?_, fun n₀ k₀ hole hw => hr.held hu hw, ?_⟩
    · rw [cancel_eq hu]
      show ((w.setCell h.cell .cancelled).dropUnit unit).book.bodies = _
      exact Notebook.bodies_of_deeds (deeds_dropUnit (w.setCell h.cell .cancelled) unit)
    · exact fun hih => hi (List.mem_singleton.mpr hih)
    · obtain rfl := List.mem_singleton.mp hx
      rw [cancel_eq hu, cell_withdrawn_self hu, hu]
      exact .inl ⟨rfl, rfl⟩
    · have hnot := hk h List.mem_cons_self
      rwa [hu] at hnot
    · rw [htold, List.filterMap_cons, withdrawal?, hu]
      rfl
  · have hfinal : (w.cell h.cell).isSuspended = false := by
      cases hc : w.cell h.cell with
      | suspended unit => exact absurd ⟨unit, hc⟩ hu
      | _ => rfl
    rw [cancel_of_ne fun unit h => hu ⟨unit, h⟩]
    refine ⟨[], { w.cancels_nil with
      cell_of_ne := fun _ _ => rfl, cell := fun x hx => ?_, shelf := fun _ _ => rfl, told := ?_ }⟩
    · obtain rfl := List.mem_singleton.mp hx
      exact .inr ⟨hfinal, rfl⟩
    · rw [List.filterMap_cons, withdrawal?, hfinal]
      rfl

/-- **Every test that has not begun is cancelled**, and nothing else happens. -/
theorem cancelAll_cancels (hs : List Handle) : ∀ {w : World} {count : Nat},
    (hs.map Handle.cell).Nodup → (w.cancelAll hs).1 = .ok count →
    ∃ es, w.Cancels (w.cancelAll hs).2 hs es := by
  induction hs with
  | nil => intro w count _ _; exact ⟨[], w.cancels_nil⟩
  | cons h rest ih =>
    intro w count hnd hok
    obtain ⟨hnot, hnd⟩ := List.nodup_cons.mp hnd
    obtain ⟨⟨n, hn⟩, hrest⟩ := cancelAll_ok hok
    obtain ⟨es, hfirst⟩ := w.cancel_cancels h
    obtain ⟨fs, hlater⟩ := ih hnd hn
    rw [hrest]
    refine ⟨es ++ fs, hfirst.trans hlater fun x hx hmem => hnot ?_⟩
    rw [List.map_singleton, List.mem_singleton] at hmem
    exact hmem ▸ List.mem_map_of_mem hx

/-! ### What passes collect -/

/-- The outcome that is in the cell of a handle. -/
def known? (w : World) (h : Handle) : Option Outcome :=
  (w.cell h.cell).outcome?

/-- Between `w₀` and `w` the handles `hs` were made and the events `es` were written.  What was
registered waits on new shelves, and all of these but `hole` have owners among the new cells. -/
structure Collects (w₀ w : World) (hole : Option Nat) (hs : List Handle) (es : List Event) : Prop
    extends Conserves w₀ w es, Adds w₀ w hs where
  shelves : w₀.shelves.length ≤ w.shelves.length
  shelf : ∀ k, k < w₀.shelves.length → w.shelf k = w₀.shelf k
  held : w.Held w₀.cells.length w₀.shelves.length hole
  dealt : ∀ h ∈ hs, ∃ s, h.Dealt s (w.cell h.cell)
  told : finishedIn es = hs.filterMap w.known?

variable {w₀ : World} {hole : Option Nat}

theorem collects_nil (w : World) : w.Collects w none [] [] where
  toConserves := conserves_still w.book.writes_refl rfl rfl rfl
  toAdds := .refl w
  shelves := Nat.le_refl _
  shelf _ _ := rfl
  held := by
    constructor
    · intro i k hi hk
      exact absurd (lt_of_owner hk) (Nat.not_lt_of_le hi)
    · intro k hk hne
      refine absurd ?_ hne
      rw [World.shelf, List.getElem?_eq_none hk]
      rfl
  dealt h hh := absurd hh List.not_mem_nil
  told := rfl

end World

namespace RootContext

variable {r : RootContext} {search : Search} {w₀ v w : World} {e : PassEnd} {hs ks : List Handle}
  {cs : List (Cell TestUnit Outcome)} {es fs : List Event} {n : Nat}

/-- The new cells go side by side with the new handles. -/
theorem Yields.cells_eq (h : r.Yields search w e hs cs es) :
    cs = hs.map fun x => e.world.cell x.cell :=
  World.cells_eq_of_numbered h.cells h.numbered h.dealt.length_eq

/-- A pass adds to what was collected. -/
theorem Yields.collects (h : r.Yields search w e hs cs es) (hadds : w.Adds e.world hs)
    (hw : w.listener.Calm) (hc : w₀.Collects w none ks fs) :
    w₀.Collects e.world e.hole (ks ++ hs) (fs ++ es) where
  toConserves := hc.toConserves.trans h.conserves
  toAdds := hc.toAdds.trans hadds
  shelves := by
    rw [h.shelves, List.length_append]
    exact Nat.le_add_right_of_le hc.shelves
  shelf k hk := by
    rw [h.shelf_of_lt (Nat.lt_of_lt_of_le hk hc.shelves), hc.shelf k hk]
  held := h.held hc.held hc.toAdds.cells.length_le hc.shelves
  dealt x hx := by
    rcases List.mem_append.mp hx with hx | hx
    · rw [World.cell_of_isPrefix hadds.cells (hc.toAdds.lt hx).2]
      exact hc.dealt x hx
    · have hall := h.dealt
      rw [h.cells_eq, List.forall₂_map_right_iff, List.forall₂_same] at hall
      exact ⟨_, hall x hx⟩
  told := by
    have hold : ks.filterMap e.world.known? = ks.filterMap w.known? := by
      refine List.filterMap_congr fun x hx => ?_
      rw [World.known?, World.known?, World.cell_of_isPrefix hadds.cells (hc.toAdds.lt hx).2]
    rw [finishedIn_append, hc.told, h.told hw, h.cells_eq, List.filterMap_map,
      List.filterMap_append, hold]
    rfl

/-- What is done behind a pass loses nothing that was collected. -/
theorem behind_collects (hc : w₀.Collects e.world e.hole hs es) (hk : w₀.shelves.length ≤ e.shelf)
    (hadds : w₀.Adds (r.behind e) hs) : ∃ fs, w₀.Collects (r.behind e) none hs (es ++ fs) := by
  obtain ⟨fs, hconserves, hf⟩ := r.behind_conserves e
  obtain ⟨_, -, -, hcells, -, hcases⟩ := r.behind_writes e
  have hcell := World.cell_congr hcells
  have hshelves : (r.behind e).shelves.length = e.world.shelves.length ∧
      ∀ k, k < w₀.shelves.length → (r.behind e).shelf k = e.world.shelf k := by
    rcases hcases with ⟨-, -, hs⟩ | ⟨-, -, hs⟩
    · exact ⟨by rw [hs], fun k _ => by rw [World.shelf_congr hs]⟩
    · exact ⟨by rw [hs, List.length_set], fun k hlt => World.shelf_of_set_ne hs (by omega)⟩
  refine ⟨fs, ⟨hc.toConserves.trans hconserves, hadds, ?_, fun k hlt => ?_, r.behind_held hc.held,
    ?_, ?_⟩⟩
  · rw [hshelves.1]
    exact hc.shelves
  · rw [hshelves.2 k hlt, hc.shelf k hlt]
  · rw [hcell]
    exact hc.dealt
  · rw [finishedIn_append, hf, List.append_nil, hc.told]
    refine List.filterMap_congr fun x _ => ?_
    rw [World.known?, World.known?, hcell]

/-- What all passes of a discovery collect, up to the end of one of them. -/
theorem Begins.collects (h : r.Begins w₀ n search w) (hw : w₀.listener.Calm) :
    (∃ es, w₀.Collects w none search.tests es) ∧ ∃ es,
      w₀.Collects (r.runPass search w).world (r.runPass search w).hole
        (r.runPass search w).search.tests es := by
  -- a pass adds to what the passes before it have collected
  have hpass : ∀ {n search w}, r.Begins w₀ n search w → (∃ es, w₀.Collects w none search.tests es) →
      ∃ es, w₀.Collects (r.runPass search w).world (r.runPass search w).hole
        (r.runPass search w).search.tests es := by
    intro n search w h ⟨fs, hc⟩
    obtain ⟨hadds, hdirect, -⟩ := h.adds
    obtain ⟨hs, cs, es, hy⟩ := r.runPass_yields search w hdirect
    obtain ⟨ks, htests, hpass, -⟩ := r.runPass_adds search w hdirect
    obtain rfl : hs = ks := List.append_cancel_left (hy.tests.symm.trans htests)
    rw [htests]
    exact ⟨fs ++ es, hy.collects hpass (hadds.listener ▸ hw) hc⟩
  have hbegin : ∃ es, w₀.Collects w none search.tests es := by
    induction h with
    | first => exact ⟨[], w₀.collects_nil⟩
    | @next n search w h hf he hl ih =>
      obtain ⟨hadds, hdirect, -⟩ := h.adds
      obtain ⟨es, hc⟩ := hpass h ih
      obtain ⟨_, _, _, hy⟩ := r.runPass_yields search w hdirect
      obtain ⟨_, hbegun⟩ := ih
      obtain ⟨fs, hall⟩ := behind_collects hc (hy.shelf ▸ hbegun.shelves) (h.next hf he hl).adds.1
      exact ⟨es ++ fs, hall⟩
  exact ⟨hbegin, hpass h hbegin⟩

end RootContext

end TestTree
