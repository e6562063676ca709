/-
What several discoveries gather, one after another in one world.

* `World.Gathers` : the handles that were made between two worlds, those of them that may still be
  suspended, and the events that were written;
* `World.Gathers.trans`, `Gathers.cancelled` : what is gathered later comes on top, and what is
  suspended can be cancelled;
* `World.Spent`, `Gathers.spent` : when nothing is suspended any more, nothing is left to be done;
* `RootContext.discover_gathers` : **a discovery gathers its handles**, and none of them is suspended
  if it ends with an error.

## Design notes

`Collects` sees one discovery from within and has all its handles.  Here a discovery is seen from
without, and another one can come behind it.  Builders that discard structural errors are not
excluded.
-/
import TestTree.Proofs.Cancelling
import TestTree.Proofs.PassCount

namespace TestTree

open scoped List

/-! ### What elements of a list yield -/

/-- A list that is gone through twice, each element of which yields something one time at most. -/
theorem perm_filterMap_or {α β : Type} {f g : α → Option β} (l : List α)
    (h : ∀ a ∈ l, f a = none ∨ g a = none) :
    l.filterMap f ++ l.filterMap g ~ l.filterMap fun a => (f a).or (g a) := by
  induction l with
  | nil => exact .refl _
  | cons a rest ih =>
    have hrest := ih fun b hb => h b (List.mem_cons_of_mem _ hb)
    simp only [List.filterMap_cons]
    cases hf : f a with
    | some b =>
      have hg := (h a List.mem_cons_self).resolve_left (by rw [hf]; rintro ⟨⟩)
      rw [hg]
      exact hrest.cons b
    | none =>
      cases hg : g a with
      | none => exact hrest
      | some b => exact List.perm_middle.trans (hrest.cons b)

theorem map_some_filterMap {α β : Type} {f : α → Option β} {l : List α} (h : ∀ a ∈ l, f a ≠ none) :
    (l.filterMap f).map some = l.map f := by
  induction l with
  | nil => rfl
  | cons a rest ih =>
    obtain ⟨b, hb⟩ := Option.ne_none_iff_exists'.mp (h a List.mem_cons_self)
    rw [List.filterMap_cons, hb, List.map_cons, List.map_cons, hb,
      ih fun c hc => h c (List.mem_cons_of_mem _ hc)]

/-- What nothing outside a part of a list yields is yielded by that part. -/
theorem filterMap_of_sublist {α β : Type} {f : α → Option β} {part all : List α}
    (h : part <+ all) (hn : all.Nodup) (hf : ∀ a ∈ all, f a ≠ none → a ∈ part) :
    all.filterMap f = part.filterMap f := by
  induction h with
  | slnil => rfl
  | @cons part all a h ih =>
    obtain ⟨hnot, hn⟩ := List.nodup_cons.mp hn
    have hnone : f a = none := by
      by_contra hsome
      exact hnot (h.subset (hf a List.mem_cons_self hsome))
    rw [List.filterMap_cons_none hnone]
    exact ih hn fun b hb => hf b (List.mem_cons_of_mem _ hb)
  | @cons_cons part all a h ih =>
    obtain ⟨hnot, hn⟩ := List.nodup_cons.mp hn
    have hrest := ih hn fun b hb hsome =>
      (List.mem_cons.mp (hf b (List.mem_cons_of_mem _ hb) hsome)).resolve_left fun hba =>
        hnot (hba ▸ hb)
    rw [List.filterMap_cons, List.filterMap_cons, hrest]

namespace World

variable {u v w z : World} {es fs : List Event} {hs ks live more : List Handle} {h : Handle}
  {hole : Option Nat} {i k n₀ k₀ : Nat}

/-! ### Custody from two beginnings -/

/-- What has owners from a later moment on, and had them before that moment, has owners. -/
theorem Held.trans (h : v.Held n₀ k₀ none) (g : w.Held v.cells.length v.shelves.length hole)
    (hn : n₀ ≤ v.cells.length) (hk : k₀ ≤ v.shelves.length)
    (hlength : v.shelves.length ≤ w.shelves.length)
    (hcell : ∀ i, i < v.cells.length → w.cell i = v.cell i)
    (hshelf : ∀ k, k < v.shelves.length → w.shelf k = v.shelf k) : w.Held n₀ k₀ hole := by
  constructor
  · intro i k hi hown
    by_cases hlt : i < v.cells.length
    · rw [hcell i hlt] at hown
      have hold := h.housed i k hi hown
      omega
    · have hnew := g.housed i k (Nat.le_of_not_lt hlt) hown
      omega
  · intro k hle hne
    by_cases hlt : k < v.shelves.length
    · rw [hshelf k hlt] at hne
      obtain ⟨i, hi, hown⟩ := (h.held k hle hne).resolve_left nofun
      exact .inr ⟨i, hi, by rwa [hcell i (lt_of_owner hown)]⟩
    · exact (g.held k (Nat.le_of_not_lt hlt) hne).imp_right fun ⟨i, hi, hown⟩ =>
        ⟨i, hn.trans hi, hown⟩

/-- Every shelf may go without an owner that has none. -/
theorem Held.weaken (h : v.Held n₀ k₀ hole) (hhole : hole = none ∨ hole = some k) :
    v.Held n₀ k₀ (some k) := by
  refine ⟨h.housed, fun j hj hne => (h.held j hj hne).imp_left fun hsome => ?_⟩
  rcases hhole with rfl | rfl
  · cases hsome
  · exact hsome

/-! ### What is gathered -/

/-- Between `w` and `z` the handles `hs` were made and the events `es` were written.  No handle is
suspended but those in `live`.  What was registered waits on new shelves, and all of these but
`hole` have owners among the new cells. -/
structure Gathers (w z : World) (hole : Option Nat) (hs live : List Handle) (es : List Event) : Prop
    extends Conserves w z es where
  /-- The handles are all that were made, and each has a cell of its own. -/
  numbered : hs.map Handle.cell = List.range' w.cells.length hs.length
  length : z.cells.length = w.cells.length + hs.length
  old : ∀ i, i < w.cells.length → z.cell i = w.cell i
  listener : z.listener = w.listener
  bodies : z.book.bodies = w.book.bodies
  shelves : w.shelves.length ≤ z.shelves.length
  shelf : ∀ k, k < w.shelves.length → z.shelf k = w.shelf k
  held : z.Held w.cells.length w.shelves.length hole
  /-- A handle has what its pass gave it, or is cancelled, and then it is none of `live`. -/
  dealt : ∀ h ∈ hs, (∃ s, h.Dealt s (z.cell h.cell)) ∨ h ∉ live ∧ z.cell h.cell = .cancelled
  part : live <+ hs
  live : ∀ h ∈ hs, (z.cell h.cell).isSuspended = true → h ∈ live
  /-- The listener was told once of every handle that has an outcome. -/
  told : finishedIn es ~ hs.filterMap z.outcome?

theorem outcome?_congr (hc : w.cell h.cell = v.cell h.cell) : w.outcome? h = v.outcome? h := by
  rw [outcome?, outcome?, hc]

theorem outcome?_of_suspended (hc : (w.cell h.cell).isSuspended = true) : w.outcome? h = none := by
  rw [outcome?]
  cases hcell : w.cell h.cell with
  | suspended u => rfl
  | _ => rw [hcell] at hc; cases hc

theorem Gathers.lt (hg : w.Gathers z hole hs live es) (hh : h ∈ hs) :
    w.cells.length ≤ h.cell ∧ h.cell < z.cells.length := by
  have hmem : h.cell ∈ hs.map Handle.cell := List.mem_map_of_mem hh
  rw [hg.numbered, List.mem_range'_1] at hmem
  rw [hg.length]
  exact hmem

theorem Gathers.nodup (hg : w.Gathers z hole hs live es) : (hs.map Handle.cell).Nodup := by
  rw [hg.numbered]
  exact List.nodup_range'

/-- Whoever is suspended was suspended before, or is one of the handles in `live`. -/
theorem Gathers.suspended (hg : w.Gathers z hole hs live es)
    (hs' : (z.cell i).isSuspended = true) : i < w.cells.length ∨ ∃ h ∈ live, h.cell = i := by
  by_cases hi : i < w.cells.length
  · exact .inl hi
  · have hlt : i < z.cells.length := by
      by_contra hout
      rw [cell, List.getElem?_eq_none (Nat.le_of_not_lt hout)] at hs'
      cases hs'
    have hmem : i ∈ hs.map Handle.cell := by
      rw [hg.numbered, List.mem_range'_1]
      exact ⟨Nat.le_of_not_lt hi, hg.length ▸ hlt⟩
    obtain ⟨h, hh, rfl⟩ := List.mem_map.mp hmem
    exact .inr ⟨h, hg.live h hh hs', rfl⟩

/-- What was collected in one discovery is gathered; each handle may be suspended. -/
theorem Collects.gathers (hc : w.Collects z hole hs es) : w.Gathers z hole hs hs es where
  toConserves := hc.toConserves
  numbered := hc.toAdds.handles
  length := hc.toAdds.length
  old i hi := cell_of_isPrefix hc.toAdds.cells hi
  listener := hc.toAdds.listener
  bodies := hc.toAdds.bodies
  shelves := hc.shelves
  shelf := hc.shelf
  held := hc.held
  dealt h hh := .inl (hc.dealt h hh)
  part := List.Sublist.refl hs
  live _ hh _ := hh
  told := by
    -- what a pass gives a handle is its outcome, or no outcome at all
    have hknown : hs.filterMap z.known? = hs.filterMap z.outcome? := by
      refine List.filterMap_congr fun h hh => ?_
      obtain ⟨s, hd⟩ := hc.dealt h hh
      rw [known?, outcome?]
      generalize z.cell h.cell = c at hd
      cases hd with
      | given hr => rfl
      | replayed => rfl
      | direct body => rfl
    rw [hc.told, hknown]

/-- Where only the pool and the diagnostics change, nothing is gathered. -/
theorem gathers_rests (hr : w.Rests z) : w.Gathers z none [] [] [] where
  toConserves := conserves_still hr.writes rfl rfl hr.shelves
  numbered := rfl
  length := congrArg List.length hr.cells
  old i _ := congrFun (cell_congr hr.cells) i
  listener := hr.listener
  bodies := Notebook.bodies_of_acts hr.acts
  shelves := Nat.le_of_eq (congrArg List.length hr.shelves).symm
  shelf k _ := congrFun (shelf_congr hr.shelves) k
  held := w.collects_nil.held.append hr.shelves (hr.cells.trans (List.append_nil _).symm) nofun
  dealt _ hh := absurd hh List.not_mem_nil
  part := .slnil
  live _ hh _ := absurd hh List.not_mem_nil
  told := .refl _

/-- **What is gathered later comes on top.** -/
theorem Gathers.trans (hg : u.Gathers v none hs live es) (kg : v.Gathers w hole ks more fs) :
    u.Gathers w hole (hs ++ ks) (live ++ more) (es ++ fs) where
  toConserves := hg.toConserves.trans kg.toConserves
  numbered := by
    rw [List.map_append, hg.numbered, kg.numbered, hg.length, List.length_append,
      List.range'_append_1]
  length := by rw [kg.length, hg.length, List.length_append, Nat.add_assoc]
  old i hi := by
    rw [kg.old i (by rw [hg.length]; omega), hg.old i hi]
  listener := kg.listener.trans hg.listener
  bodies := kg.bodies.trans hg.bodies
  shelves := hg.shelves.trans kg.shelves
  shelf k hk := by
    rw [kg.shelf k (Nat.lt_of_lt_of_le hk hg.shelves), hg.shelf k hk]
  held := hg.held.trans kg.held (by rw [hg.length]; omega) hg.shelves kg.shelves kg.old kg.shelf
  dealt h hh := by
    rcases List.mem_append.mp hh with hh | hh
    · -- the later handles have later cells
      have hnot : h ∉ more := fun hmore =>
        absurd (hg.lt hh).2 (Nat.not_lt_of_le (kg.lt (kg.part.subset hmore)).1)
      rw [kg.old h.cell (hg.lt hh).2]
      exact (hg.dealt h hh).imp_right fun ⟨hold, hc⟩ =>
        ⟨fun hmem => (List.mem_append.mp hmem).elim hold hnot, hc⟩
    · have hnot : h ∉ live := fun hlive =>
        absurd (hg.lt (hg.part.subset hlive)).2 (Nat.not_lt_of_le (kg.lt hh).1)
      exact (kg.dealt h hh).imp_right fun ⟨hnew, hc⟩ =>
        ⟨fun hmem => (List.mem_append.mp hmem).elim hnot hnew, hc⟩
  part := hg.part.append kg.part
  live h hh hsuspended := by
    rcases List.mem_append.mp hh with hh | hh
    · rw [kg.old h.cell (hg.lt hh).2] at hsuspended
      exact List.mem_append_left _ (hg.live h hh hsuspended)
    · exact List.mem_append_right _ (kg.live h hh hsuspended)
  told := by
    have hold : hs.filterMap w.outcome? = hs.filterMap v.outcome? :=
      List.filterMap_congr fun h hh => outcome?_congr (kg.old h.cell (hg.lt hh).2)
    rw [finishedIn_append, List.filterMap_append, hold]
    exact hg.told.append kg.told

theorem Gathers.rests (hg : w.Gathers v none hs live es) (hr : v.Rests z) :
    w.Gathers z none hs live es := by
  have hall := hg.trans (gathers_rests hr)
  rwa [List.append_nil, List.append_nil, List.append_nil] at hall

/-- A shelf without an owner is closed. -/
theorem Gathers.close (hg : w.Gathers v hole hs live es) (hhole : hole = none ∨ hole = some k)
    (hk : w.shelves.length ≤ k) (hcells : z.cells = v.cells) (hl : z.listener = v.listener)
    (hshelves : z.shelves = v.shelves.set k []) (hbodies : z.book.bodies = v.book.bodies)
    (hwrites : v.book.Writes z.book fs) (hcloses : Closes (v.shelf k).serials fs) :
    w.Gathers z none hs live (es ++ fs) where
  toConserves := hg.toConserves.trans (conserves_shelf hwrites hcloses hshelves)
  numbered := hg.numbered
  length := (congrArg List.length hcells).trans hg.length
  old := cell_congr hcells ▸ hg.old
  listener := hl.trans hg.listener
  bodies := hbodies.trans hg.bodies
  shelves := by
    rw [hshelves, List.length_set]
    exact hg.shelves
  shelf j hj := by
    rw [shelf_of_set_ne hshelves (by omega)]
    exact hg.shelf j hj
  held := (hg.held.weaken hhole).close hcells hshelves
  dealt := cell_congr hcells ▸ hg.dealt
  part := hg.part
  live := cell_congr hcells ▸ hg.live
  told := by
    have hsame : hs.filterMap z.outcome? = hs.filterMap v.outcome? :=
      List.filterMap_congr fun h _ => outcome?_congr (congrFun (cell_congr hcells) h.cell)
    rw [finishedIn_append, hcloses.finished, List.append_nil, hsame]
    exact hg.told

/-- A test whose outcome is known is gathered. -/
theorem completed_gathers (hw : w.listener.Calm) (test : Description) {result : TestResult}
    (hr : result = .pending ∨ ∃ f, result = .failed f) :
    let h : Handle := ⟨test, w.cells.length⟩
    w.completed ⟨test, result⟩ = (.ok h, (w.completed ⟨test, result⟩).2) ∧
      w.Gathers (w.completed ⟨test, result⟩).2 none [h] [h]
        [.notified (.finished ⟨test, result⟩)] := by
  intro h
  rw [completed_calm (hw _)]
  let book := w.book.add (.notified (.finished ⟨test, result⟩))
  let z : World := { w with book, cells := w.cells ++ [.done ⟨test, result⟩] }
  have hcell : z.cell h.cell = .done ⟨test, result⟩ := cell_last rfl
  have hwrites : w.book.Writes book [.notified (.finished ⟨test, result⟩)] :=
    w.book.writes_add rfl rfl
  exact ⟨rfl, {
    toConserves := conserves_still hwrites rfl rfl rfl
    numbered := rfl
    length := List.length_append
    old := fun i hi => cell_of_isPrefix (List.prefix_append _ _) hi
    listener := rfl
    bodies := rfl
    shelves := Nat.le_refl _
    shelf := fun _ _ => rfl
    held := w.collects_nil.held.append rfl rfl fun c hc => by
      rw [List.mem_singleton.mp hc]
      rfl
    dealt := fun k hk => by
      have hd : ∃ s, h.Dealt s (z.cell h.cell) := ⟨default, by rw [hcell]; exact .given hr⟩
      rw [List.mem_singleton.mp hk]
      exact .inl hd
    part := List.Sublist.refl _
    live := fun _ hk _ => hk
    told := by
      have houtcome : z.outcome? h = some ⟨test, result⟩ := by
        rw [outcome?, hcell]
        rfl
      rw [List.filterMap_cons_some houtcome]
      exact .refl _ }⟩

/-! ### What is cancelled -/

/-- A cell that was suspended is cancelled, or the cell is as it was. -/
theorem Cancels.cell_cases (hx : v.Cancels w hs es) (i : Nat) :
    (v.cell i).isSuspended = true ∧ w.cell i = .cancelled ∨ w.cell i = v.cell i := by
  by_cases hmem : i ∈ hs.map Handle.cell
  · obtain ⟨h, hh, rfl⟩ := List.mem_map.mp hmem
    exact (hx.cell h hh).imp_right And.right
  · exact .inr (hx.cell_of_ne i hmem)

theorem Cancels.final (hx : v.Cancels w hs es) (hh : h ∈ hs) :
    (w.cell h.cell).isSuspended = false := by
  rcases hx.cell h hh with ⟨-, hw⟩ | ⟨hv, hw⟩
  · rw [hw]
    rfl
  · rw [hw]
    exact hv

/-- **When the handles are cancelled that may be suspended, no handle is.** -/
theorem Gathers.cancelled (hg : w.Gathers v hole hs live es) (hx : v.Cancels z live fs)
    (hl : z.listener = v.listener) : w.Gathers z hole hs [] (es ++ fs) where
  toConserves := hg.toConserves.trans hx.toConserves
  numbered := hg.numbered
  length := hx.length.trans hg.length
  old i hi := by
    rw [hx.cell_of_ne i fun hmem => ?_]
    · exact hg.old i hi
    · obtain ⟨h, hh, rfl⟩ := List.mem_map.mp hmem
      exact absurd hi (Nat.not_lt_of_le (hg.lt (hg.part.subset hh)).1)
  listener := hl.trans hg.listener
  bodies := hx.bodies.trans hg.bodies
  shelves := hx.shelves ▸ hg.shelves
  shelf k hk := by
    -- no unit that was made owns an old shelf
    rw [hx.shelf k fun h hh hown => ?_]
    · exact hg.shelf k hk
    · have hle := (hg.held.housed h.cell k (hg.lt (hg.part.subset hh)).1 hown).1
      omega
  held := hx.held _ _ _ hg.held
  dealt h hh := by
    rcases hx.cell_cases h.cell with ⟨-, hz⟩ | hz
    · exact .inr ⟨List.not_mem_nil, hz⟩
    · rw [hz]
      exact (hg.dealt h hh).imp_right fun hc => ⟨List.not_mem_nil, hc.2⟩
  part := List.nil_sublist hs
  live h hh hsuspended := by
    rcases hx.cell_cases h.cell with ⟨-, hz⟩ | hz
    · rw [hz] at hsuspended
      cases hsuspended
    · have hlive := hg.live h hh (hz ▸ hsuspended)
      rw [hx.final hlive] at hsuspended
      cases hsuspended
  told := by
    have hwithdrawn : hs.filterMap v.withdrawal? = live.filterMap v.withdrawal? := by
      refine filterMap_of_sublist hg.part hg.nodup.of_map fun h hh hsome => hg.live h hh ?_
      rw [withdrawal?] at hsome
      by_contra hnot
      exact hsome (if_neg hnot)
    -- an outcome was known before, or came with the cancellation
    have hsources : ∀ h ∈ hs, (v.outcome? h = none ∨ v.withdrawal? h = none) ∧
        (v.outcome? h).or (v.withdrawal? h) = z.outcome? h := by
      intro h hh
      by_cases hv : (v.cell h.cell).isSuspended = true
      · have hz : z.cell h.cell = .cancelled :=
          ((hx.cell h (hg.live h hh hv)).resolve_right fun hk => by rw [hv] at hk; cases hk.1).2
        rw [outcome?_of_suspended hv, withdrawal?, if_pos hv, outcome?, hz]
        exact ⟨.inl rfl, rfl⟩
      · have hz := (hx.cell_cases h.cell).resolve_left fun hk => hv hk.1
        rw [withdrawal?, if_neg hv, outcome?_congr hz, Option.or_none]
        exact ⟨.inr rfl, rfl⟩
    have hall := perm_filterMap_or hs fun h hh => (hsources h hh).1
    rw [List.filterMap_congr fun h hh => (hsources h hh).2, hwithdrawn] at hall
    rw [finishedIn_append, hx.told]
    exact (hg.told.append_right _).trans hall

theorem listener_cancelAll (hs : List Handle) (w : World) :
    (w.cancelAll hs).2.listener = w.listener :=
  cancelAll_keep (fun v => v.listener = w.listener) (fun _ hr hv => hr.listener.trans hv) hs w rfl

/-- Nothing keeps the handles from being cancelled. -/
theorem Gathers.cancelAll (hg : w.Gathers v hole hs live es) (hw : w.listener.Calm) :
    ∃ count z fs, v.cancelAll live = (.ok count, z) ∧ z.listener = v.listener ∧
      v.Cancels z live fs ∧ w.Gathers z hole hs [] (es ++ fs) := by
  have hnodup : (live.map Handle.cell).Nodup := hg.nodup.sublist (hg.part.map _)
  obtain ⟨count, z, hz⟩ := cancelAll_calm live (w := v) (hg.listener ▸ hw)
  obtain ⟨fs, hx⟩ := cancelAll_cancels live hnodup (congrArg Prod.fst hz)
  have hl := v.listener_cancelAll live
  rw [hz] at hx hl
  exact ⟨count, z, fs, hz, hl, hx, hg.cancelled hx hl⟩

/-! ### When nothing is suspended -/

/-- If nothing waits on new shelves, then only what waited before waits. -/
theorem pending_of_shelves (hlength : v.shelves.length ≤ w.shelves.length)
    (hold : ∀ k, k < v.shelves.length → w.shelf k = v.shelf k)
    (hnew : ∀ k, v.shelves.length ≤ k → w.shelf k = []) : w.pending = v.pending := by
  have hget : ∀ {z : World} {k : Nat} (hk : k < z.shelves.length), z.shelves[k] = z.shelf k := by
    intro z k hk
    rw [shelf, List.getElem?_eq_getElem hk]
    rfl
  have hshelves : w.shelves
      = v.shelves ++ List.replicate (w.shelves.length - v.shelves.length) [] := by
    refine List.ext_getElem ?_ fun k hk _ => ?_
    · rw [List.length_append, List.length_replicate]
      omega
    · rw [hget hk]
      by_cases hlt : k < v.shelves.length
      · rw [List.getElem_append_left hlt, hget hlt, hold k hlt]
      · rw [List.getElem_append_right (Nat.le_of_not_lt hlt), List.getElem_replicate,
          hnew k (Nat.le_of_not_lt hlt)]
  rw [pending, hshelves, List.flatten_append, List.flatten_replicate_nil, List.append_nil]
  rfl

/-- Between `w` and `z` the handles `hs` were made and the events `es` written, and nothing is left
to be done of it. -/
structure Spent (w z : World) (hs : List Handle) (es : List Event) : Prop where
  /-- The handles are all that were made, and each has a cell of its own. -/
  numbered : hs.map Handle.cell = List.range' w.cells.length hs.length
  length : z.cells.length = w.cells.length + hs.length
  old : ∀ i, i < w.cells.length → z.cell i = w.cell i
  /-- Pending tests and contexts that failed have results of their own; every other test is
  cancelled. -/
  final : ∀ h ∈ hs, (∃ result, (result = .pending ∨ ∃ f, result = .failed f) ∧
      z.cell h.cell = .done ⟨h.test, result⟩) ∨ z.cell h.cell = .cancelled
  /-- No body was run. -/
  bodies : z.book.bodies = w.book.bodies
  /-- Whatever is done later, the handles stay as they are, and what can still be run was there
  before. -/
  later : ∀ us, (∀ h ∈ hs, (z.useAll us).cell h.cell = z.cell h.cell) ∧
    (∀ i unit, (z.useAll us).cell i = .suspended unit → w.cell i = .suspended unit) ∧
    ((∀ i, (w.cell i).isSuspended = false) → (z.useAll us).book.bodies = w.book.bodies)
  writes : w.book.Writes z.book es
  /-- What was registered was closed once, and nothing else was closed. -/
  closed : closedIn es ~ registeredIn es ∧ (closedIn es).Nodup
  pending : z.pending = w.pending
  /-- The listener was told once of every handle. -/
  told : (finishedIn es).map some ~ hs.map z.outcome?

theorem Gathers.final (hg : w.Gathers z hole hs [] es) (hi : w.cells.length ≤ i) :
    (z.cell i).isSuspended = false := by
  by_contra hs'
  rcases hg.suspended (Bool.not_eq_false _ ▸ hs') with hlt | ⟨h, hh, -⟩
  · omega
  · cases hh

/-- **When no handle is suspended, nothing is left to be done.** -/
theorem Gathers.spent (hg : w.Gathers z none hs [] es) : w.Spent z hs es := by
  have hpending : z.pending = w.pending := by
    refine pending_of_shelves hg.shelves hg.shelf fun k hk => ?_
    by_contra hwaits
    rcases hg.held.held k hk hwaits with hhole | ⟨i, hi, hown⟩
    · cases hhole
    · rw [shelf?_of_final (hg.final hi)] at hown
      cases hown
  have hperm : closedIn es ~ registeredIn es := by
    have hconserved := hg.conserved
    rwa [hpending, List.perm_append_right_iff] at hconserved
  have hfinal : ∀ h ∈ hs, (∃ result, (result = .pending ∨ ∃ f, result = .failed f) ∧
      z.cell h.cell = .done ⟨h.test, result⟩) ∨ z.cell h.cell = .cancelled := by
    intro h hh
    refine (hg.dealt h hh).imp (fun hdealt => ?_) And.right
    obtain ⟨s, hd⟩ := hdealt
    have hnot := hg.final (hg.lt hh).1
    generalize z.cell h.cell = c at hd hnot
    cases hd with
    | given hr => exact ⟨_, hr, rfl⟩
    | replayed => cases hnot
    | direct body => cases hnot
  have hknown : ∀ h ∈ hs, z.outcome? h ≠ none := by
    intro h hh
    rw [outcome?]
    rcases hfinal h hh with ⟨result, -, hz⟩ | hz
    · rw [hz]
      rintro ⟨⟩
    · rw [hz]
      rintro ⟨⟩
  refine ⟨hg.numbered, hg.length, hg.old, hfinal, hg.bodies, ?_, hg.writes, ⟨hperm, ?_⟩, hpending, ?_⟩
  · intro us
    obtain ⟨hkept, hold, hidle⟩ := later_of_final hg.old (fun i => hg.final) hg.bodies us
    exact ⟨fun h hh => hkept h.cell (hg.lt hh).1, hold, hidle⟩
  · rw [hperm.nodup_iff, hg.writes.numbers]
    exact List.nodup_range'
  · rw [← map_some_filterMap hknown]
    exact hg.told.map some

end World

/-! ### Discoveries -/

namespace RootContext

variable {r : RootContext} {w v : World} {e : PassEnd} {search : Search} {es : List Event}

/-- A result is written into the log. -/
theorem finish_gathers (r : RootContext) (search : Search)
    (hg : w.Gathers v none search.tests search.tests es) (n : Nat) :
    ∃ d z, r.finish n search v = (.ok (.ok d), z) ∧ w.Gathers z none d.tests d.tests es :=
  ⟨_, _, rfl, hg.rests (r.finish_rests n search v)⟩

/-- The test that stands for a root that failed is gathered. -/
theorem finishFailed_gathers (hg : w.Gathers v none search.tests search.tests es)
    (hw : w.listener.Calm) (n : Nat) (f : Failure) :
    ∃ d z fs, r.finishFailed n f search v = (.ok (.ok d), z) ∧
      w.Gathers z none d.tests d.tests fs := by
  obtain ⟨hok, hown⟩ := World.completed_gathers (w := v) (hg.listener ▸ hw)
    ⟨r.context, r.name, r.location⟩ (.inr ⟨f, rfl⟩)
  let own : Handle := ⟨⟨r.context, r.name, r.location⟩, v.cells.length⟩
  obtain ⟨d, z, hfinish, hall⟩ :=
    finish_gathers r { search with tests := search.tests ++ [own] } (hg.trans hown) n
  refine ⟨d, z, _, ?_, hall⟩
  rw [finishFailed, hok]
  exact hfinish

/-- An aborted discovery cancels its tests and closes the shelf of its last pass. -/
theorem abort_gathers (hc : w.Collects e.world e.hole e.search.tests es)
    (hk : w.shelves.length ≤ e.shelf) (hw : w.listener.Calm) (error : StructuralError) :
    ∃ z fs, r.abort e error = (.ok (.error error), z) ∧
      w.Gathers z none e.search.tests [] fs ∧
      ∀ h ∈ e.search.tests,
        (e.world.cell h.cell).isSuspended = true ∧ z.cell h.cell = .cancelled ∨
          (e.world.cell h.cell).isSuspended = false ∧ z.cell h.cell = e.world.cell h.cell := by
  obtain ⟨count, v, fs, hcancel, -, hx, hg⟩ := hc.gathers.cancelAll hw
  obtain ⟨book, gs, hclose, hwrites, hcloses⟩ :=
    v.closeWarning_closes e.shelf "teardown after aborted discovery failed: " r.name
  have hbodies : book.bodies = v.book.bodies := by
    have hadds := v.adds_closeWarning e.shelf "teardown after aborted discovery failed: " r.name
    rw [hclose] at hadds
    exact hadds.bodies
  have hclosed : w.Gathers { v with book, shelves := v.shelves.set e.shelf [] } none
      e.search.tests [] (es ++ fs ++ gs) :=
    hg.close e.hole_cases hk rfl rfl rfl hbodies hwrites hcloses
  rw [abort, hcancel]
  dsimp only
  rw [hclose]
  exact ⟨_, _, rfl, hclosed.rests ⟨rfl, rfl, rfl, rfl, rfl, rfl, rfl⟩, hx.cell⟩

/-- **A discovery gathers its handles.**  If it has a result, that has all the handles that were made;
if it ends with an error, none of them is suspended any more.  Nothing else can come of it. -/
theorem discover_gathers (r : RootContext) (hw : w.listener.Calm) : ∃ hs live es,
    w.Gathers (r.discover w).2 none hs live es ∧
      ((∃ d, (r.discover w).1 = .ok (.ok d) ∧ hs = d.tests ∧ live = d.tests) ∨
        (∃ error, (r.discover w).1 = .ok (.error error)) ∧ live = []) := by
  obtain ⟨n, search, v, hb, hend⟩ := r.discover_ends w
  obtain ⟨hadds, hdirect, -⟩ := hb.adds
  obtain ⟨⟨_, hbegun⟩, es, hc⟩ := hb.collects hw
  obtain ⟨_, _, _, hy⟩ := r.runPass_yields search v hdirect
  obtain ⟨hs, htests, hpass, hmade⟩ := r.runPass_adds search v hdirect
  have hk : w.shelves.length ≤ (r.runPass search v).shelf := hy.shelf ▸ hbegun.shelves
  -- behind the last pass, unless the discovery is aborted, or the shelf of the pass swept
  have hbehind : ∃ fs, w.Collects (r.behind (r.runPass search v)) none
      (r.runPass search v).search.tests fs := by
    obtain ⟨fs, hall⟩ := behind_collects hc hk (htests ▸ hadds.trans (behind_adds hpass hmade))
    exact ⟨_, hall⟩
  generalize r.runPass search v = e at hend hc hk hbehind
  generalize r.discover w = a at hend
  cases hend with
  | aborted hf =>
    obtain ⟨z, fs, ha, hg, -⟩ := abort_gathers (r := r) hc hk hw _
    rw [ha]
    exact ⟨_, _, _, hg, .inr ⟨⟨_, rfl⟩, rfl⟩⟩
  | @failedDirect f h hf he hd =>
    obtain ⟨fs, hreleased⟩ := hbehind
    rw [behind, hd] at hreleased
    obtain ⟨d, z, gs, ha, hg⟩ := finishFailed_gathers hreleased.gathers hw (r := r) (n + 1) f
    rw [ha]
    exact ⟨_, _, _, hg, .inl ⟨d, rfl, rfl, rfl⟩⟩
  | @failedSwept f hf he hd =>
    obtain ⟨fs, hwrites, hcloses⟩ := Notebook.sweep_writes (e.world.shelf e.shelf) e.world.book
    have hswept : w.Gathers (e.world.closeShelf e.shelf).2 none e.search.tests e.search.tests
        (es ++ fs) :=
      hc.gathers.close e.hole_cases hk rfl rfl rfl
        (Notebook.bodies_of_deeds (Notebook.deeds_sweep _ _)) hwrites hcloses
    obtain ⟨d, z, gs, ha, hg⟩ := finishFailed_gathers hswept hw (r := r) (n + 1)
      (f.withTeardown (e.world.closeShelf e.shelf).1)
    rw [ha]
    exact ⟨_, _, _, hg, .inl ⟨d, rfl, rfl, rfl⟩⟩
  | finished hf he hl =>
    obtain ⟨fs, hreleased⟩ := hbehind
    obtain ⟨d, z, ha, hg⟩ := finish_gathers r (r.handOn e) hreleased.gathers (n + 1)
    rw [ha]
    exact ⟨_, _, _, hg, .inl ⟨d, rfl, rfl, rfl⟩⟩

end RootContext

end TestTree
