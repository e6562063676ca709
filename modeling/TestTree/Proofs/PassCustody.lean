/-
Custody through the passes of a discovery.

* `PassEnd.hole` : the shelf of a pass without a direct test, which has no owner;
* `RootContext.Yields.conserves`, `Yields.held` : what a pass registers is closed, or waits on its
  shelf;
* `RootContext.behind_writes` : behind a pass the shelf is left to the direct test, or closed;
* `RootContext.begins_safely` : custody is kept from pass to pass;
* `RootContext.discover_safely` : **custody is kept by a whole discovery**, whether it gives a
  result or an error.

## Design notes

Everything up to the end of a pass holds for all builders.  That a shelf has one owner only takes a
builder that discards no structural error.
-/
import TestTree.Proofs.Moments
import TestTree.Proofs.PassLedger

namespace TestTree

open scoped List

theorem Handle.Dealt.shelf?_eq {s : PassScope} {h : Handle} {c : Cell TestUnit Outcome}
    (hd : h.Dealt s c) {k : Nat} (hk : c.shelf? = some k) : s.shelf = k := by
  cases hd with
  | given hr => cases hk
  | replayed => cases hk
  | direct body => exact Option.some.inj hk

/-- The shelf that has no owner when a pass ends. -/
def PassEnd.hole (e : PassEnd) : Option Nat :=
  match e.direct with
  | some _ => none
  | none => some e.shelf

theorem PassEnd.hole_cases (e : PassEnd) : e.hole = none ∨ e.hole = some e.shelf := by
  rw [PassEnd.hole]
  cases e.direct with
  | some _ => exact .inl rfl
  | none => exact .inr rfl

namespace World

variable {v w : World} {es : List Event} {i k n₀ k₀ : Nat}

/-- A shelf without an owner is closed. -/
theorem Held.close (h : v.Held n₀ k₀ (some k)) (hc : w.cells = v.cells)
    (hs : w.shelves = v.shelves.set k []) : w.Held n₀ k₀ none := by
  constructor
  · rw [cell_congr hc, hs, List.length_set]
    exact h.housed
  · intro j hj hne
    rw [cell_congr hc]
    by_cases hjk : j = k
    · rw [hjk] at hne
      exact absurd (shelf_of_set hs) hne
    · rw [shelf_of_set_ne hs hjk] at hne
      exact .inr ((h.held j hj hne).resolve_left fun hkj => hjk (Option.some.inj hkj).symm)

end World

namespace RootContext

variable {r : RootContext} {search : Search} {v w : World} {e : PassEnd} {hs : List Handle}
  {cs : List (Cell TestUnit Outcome)} {es : List Event} {n₀ k₀ : Nat}

/-- What a pass leaves waits on its shelf. -/
theorem Yields.pending (h : r.Yields search w e hs cs es) :
    e.world.pending = w.pending ++ (e.world.shelf e.shelf).serials := by
  rw [World.pending, h.shelves, List.flatten_append, List.flatten_singleton, Shelf.serials,
    List.map_append]
  rfl

/-- **What a pass registers is closed, or waits on its shelf.** -/
theorem Yields.conserves (h : r.Yields search w e hs cs es) : w.Conserves e.world es where
  writes := h.writes
  conserved := by
    rw [h.pending]
    calc closedIn es ++ (w.pending ++ (e.world.shelf e.shelf).serials)
      _ ~ closedIn es ++ ((e.world.shelf e.shelf).serials ++ w.pending) :=
        List.perm_append_comm.append_left _
      _ ~ registeredIn es ++ w.pending := by
        rw [← List.append_assoc]
        exact h.stocked.perm.append_right _

theorem Yields.shelf_of_lt (h : r.Yields search w e hs cs es) {k : Nat}
    (hk : k < w.shelves.length) :
    e.world.shelf k = w.shelf k := by
  rw [World.shelf, h.shelves, List.getElem?_append_left hk]
  rfl

/-- A new cell owns the shelf of the pass, or none. -/
theorem Yields.owner (h : r.Yields search w e hs cs es) {i k : Nat}
    (hi : (e.world.cell i).shelf? = some k) :
    (w.cell i).shelf? = some k ∨ w.cells.length ≤ i ∧ k = e.shelf := by
  by_cases hlt : i < w.cells.length
  · rw [World.cell_of_isPrefix ⟨cs, h.cells.symm⟩ hlt] at hi
    exact .inl hi
  · have hle := Nat.le_of_not_lt hlt
    have hmem := World.lt_of_owner hi
    rw [h.cells, List.length_append] at hmem
    have hc : e.world.cell i ∈ cs := by
      rw [World.cell, h.cells, List.getElem?_append_right hle, List.getElem?_eq_getElem (by omega)]
      exact List.getElem_mem _
    obtain ⟨a, -, ha⟩ := exists_of_forall₂ h.dealt hc
    exact .inr ⟨hle, (ha.shelf?_eq hi).symm⟩

/-- **Whatever waits when a pass ends has an owner**, but for the shelf of a pass without a direct
test. -/
theorem Yields.held (h : r.Yields search w e hs cs es) (hw : w.Held n₀ k₀ none)
    (hn : n₀ ≤ w.cells.length) (hk : k₀ ≤ w.shelves.length) : e.world.Held n₀ k₀ e.hole := by
  have hlength : e.world.shelves.length = w.shelves.length + 1 := by
    rw [h.shelves, List.length_append, List.length_singleton]
  have hshelf := h.shelf
  constructor
  · intro i k hi hown
    rcases h.owner hown with hown | ⟨-, rfl⟩
    · have hlt := hw.housed i k hi hown
      omega
    · omega
  · intro k hle hne
    rcases Nat.lt_trichotomy k w.shelves.length with hlt | heq | hgt
    · rw [h.shelf_of_lt hlt] at hne
      obtain ⟨i, hi, hown⟩ := (hw.held k hle hne).resolve_left nofun
      refine .inr ⟨i, hi, ?_⟩
      rwa [World.cell_of_isPrefix ⟨cs, h.cells.symm⟩ (World.lt_of_owner hown)]
    · rcases h.direct with ⟨hd, -⟩ | ⟨d, body, hd, hsome, hcell⟩
      · rw [PassEnd.hole, hd, heq, ← hshelf]
        exact .inl rfl
      · refine .inr ⟨d.cell, ?_, ?_⟩
        · have hmem := List.mem_map_of_mem (f := Handle.cell) hd
          rw [h.numbered, List.mem_range'_1] at hmem
          omega
        · rw [hcell, heq, ← hshelf]
          rfl
    · refine absurd ?_ hne
      rw [World.shelf, List.getElem?_eq_none (by omega)]
      rfl

/-- **Behind a pass its shelf is left to the direct test, or closed.** -/
theorem behind_writes (r : RootContext) (e : PassEnd) : ∃ fs,
    e.world.book.Writes (r.behind e).book fs ∧ finishedIn fs = [] ∧
      (r.behind e).cells = e.world.cells ∧ (r.behind e).listener = e.world.listener ∧
      ((∃ h, e.direct = some h) ∧ Closes [] fs ∧ (r.behind e).shelves = e.world.shelves ∨
        e.direct = none ∧ Closes (e.world.shelf e.shelf).serials fs ∧
          (r.behind e).shelves = e.world.shelves.set e.shelf []) := by
  rw [behind]
  cases hd : e.direct with
  | some h =>
    obtain ⟨fs, hw, hp⟩ := e.world.notes_release h
    obtain ⟨_, _, hr, -⟩ := e.world.release_eq h
    have hcells := congrArg World.cells hr
    have hlistener := congrArg World.listener hr
    have hshelves := congrArg World.shelves hr
    exact ⟨fs, hw, hp.finished, hcells, hlistener, .inl ⟨⟨h, rfl⟩, hp.closes, hshelves⟩⟩
  | none =>
    obtain ⟨book, fs, hc, hw, hcloses⟩ := e.world.closeWarning_closes e.shelf
      "teardown after discovery pass failed: " r.context.display
    dsimp only
    rw [hc]
    exact ⟨fs, hw, hcloses.finished, rfl, rfl, .inr ⟨rfl, hcloses, rfl⟩⟩

theorem behind_held (r : RootContext) (he : e.world.Held n₀ k₀ e.hole) :
    (r.behind e).Held n₀ k₀ none := by
  obtain ⟨fs, -, -, hc, -, ⟨⟨h, hd⟩, -, hs⟩ | ⟨hd, -, hs⟩⟩ := r.behind_writes e
  · rw [PassEnd.hole, hd] at he
    exact he.append hs (hc.trans (List.append_nil _).symm) nofun
  · rw [PassEnd.hole, hd] at he
    exact he.close hc hs

theorem behind_conserves (r : RootContext) (e : PassEnd) :
    ∃ fs, e.world.Conserves (r.behind e) fs ∧ finishedIn fs = [] := by
  obtain ⟨fs, hw, hf, -, -, ⟨-, hcloses, hs⟩ | ⟨-, hcloses, hs⟩⟩ := r.behind_writes e
  · exact ⟨fs, World.conserves_still hw hcloses.closed hcloses.registered hs, hf⟩
  · exact ⟨fs, World.conserves_shelf hw hcloses hs, hf⟩

/-! ### Builders that discard no structural error -/

/-- A shelf without an owner is closed. -/
theorem safely_close {o : Option Nat} {k : Nat} (ho : o = none ∨ o = some k)
    (hc : w.cells = v.cells) (hl : w.listener = v.listener)
    (hs : w.shelves = v.shelves.set k []) (hw : v.book.Writes w.book es)
    (hcloses : Closes (v.shelf k).serials es) (hno : ∀ i, (v.cell i).shelf? ≠ some k) :
    World.Safely o none v w := by
  intro hv
  have hheld : v.Held 0 0 (some k) := by
    rcases ho with rfl | rfl
    · exact ⟨hv.held.housed, fun j hj hne => (hv.held.held j hj hne).imp_left nofun⟩
    · exact hv.held
  have hconserves := World.conserves_shelf hw hcloses hs
  have hunshared : w.Unshared := by
    rw [World.Unshared, World.cell_congr hc]
    exact hv.unshared
  refine ⟨⟨es, World.takesCourse_still hconserves hl (hc ▸ List.prefix_rfl) fun i unit hu => ?_⟩,
    hheld.close hc hs, hunshared, hconserves.accounted hv.accounted⟩
  -- the unit owns another shelf, if any
  rw [World.stock, World.stock]
  cases hk : unit.shelf? with
  | none => exact ⟨rfl, fun _ hn => absurd hn List.not_mem_nil⟩
  | some j =>
    have hne : j ≠ k := fun hjk => hno i (by rw [hu, ← hjk]; exact hk)
    refine ⟨World.shelf_of_set_ne hs hne, fun n hn => ?_⟩
    rw [hcloses.closed]
    exact hv.accounted.disjoint hne hn

theorem closeShelf_safely {o : Option Nat} {k : Nat} (ho : o = none ∨ o = some k)
    (hno : ∀ i, (v.cell i).shelf? ≠ some k) : World.Safely o none v (v.closeShelf k).2 := by
  obtain ⟨fs, hwrites, hcloses⟩ := Notebook.sweep_writes (v.shelf k) v.book
  exact safely_close ho rfl rfl rfl hwrites hcloses hno

theorem owned_of_custody (h : w.Custody none) : w.Owned w.shelves.length := by
  refine ⟨World.nodup_owners_iff.mpr h.unshared, fun k hk => ?_⟩
  obtain ⟨i, hi⟩ := World.mem_owners.mp hk
  exact (h.held.housed i k (Nat.zero_le _) hi).2

/-- **A pass keeps custody.** -/
theorem Yields.safely (h : r.Yields search w (r.runPass search w) hs cs es)
    (hk : ∀ error, .discarded error ∉ r.marks search w) :
    World.Safely none (r.runPass search w).hole w (r.runPass search w).world := by
  intro hw
  refine ⟨⟨es, World.takesCourse_still h.conserves h.listener ⟨cs, h.cells.symm⟩
      fun i unit hu => ?_⟩,
    h.held hw.held (Nat.zero_le _) (Nat.zero_le _), ?_, h.conserves.accounted hw.accounted⟩
  · refine ⟨?_, fun n hn hclosed => ?_⟩
    · rw [World.stock, World.stock]
      cases hunit : unit.shelf? with
      | none => rfl
      | some k => exact h.shelf_of_lt (hw.houses hu k hunit)
    · -- what is closed in a pass was registered in it
      have hregistered : n ∈ registeredIn es :=
        h.stocked.perm.mem_iff.mp (List.mem_append_left _ hclosed)
      exact hw.accounted.fresh h.writes (World.mem_pending_of_stock hn) hregistered
  · exact World.nodup_owners_iff.mp (owned_runPass (owned_of_custody hw) hk).nodup

/-- Only cells of the pass own its shelf, and none does without a direct test. -/
theorem Yields.owner_of_shelf (h : r.Yields search w e hs cs es) (hw : w.Custody none) {i : Nat}
    (hi : (e.world.cell i).shelf? = some e.shelf) :
    e.direct ≠ none ∧ ∃ k ∈ hs, k.cell = i := by
  have hnew : w.cells.length ≤ i := by
    rcases h.owner hi with hold | ⟨hle, -⟩
    · have hlt := (hw.held.housed i _ (Nat.zero_le _) hold).2
      rw [h.shelf] at hlt
      exact absurd hlt (Nat.lt_irrefl _)
    · exact hle
  have hlt := World.lt_of_owner hi
  have hlength := h.dealt.length_eq
  rw [h.cells, List.length_append] at hlt
  refine ⟨fun hnone => ?_, ?_⟩
  · rcases h.direct with ⟨-, hc⟩ | ⟨_, _, -, hsome, -⟩
    · have hmem : e.world.cell i ∈ cs := by
        rw [World.cell, h.cells, List.getElem?_append_right hnew,
          List.getElem?_eq_getElem (by omega)]
        exact List.getElem_mem _
      rw [hc _ hmem] at hi
      cases hi
    · rw [hnone] at hsome
      cases hsome
  · have hmem : i ∈ hs.map Handle.cell := by
      rw [h.numbered, List.mem_range'_1]
      omega
    obtain ⟨k, hk, hki⟩ := List.mem_map.mp hmem
    exact ⟨k, hk, hki⟩

theorem behind_safely (h : r.Yields search w e hs cs es) (hw : w.Custody none) :
    World.Safely e.hole none e.world (r.behind e) := by
  obtain ⟨fs, hwrites, -, hc, hl, ⟨⟨d, hd⟩, hcloses, hsh⟩ | ⟨hd, hcloses, hsh⟩⟩ := r.behind_writes e
  · rw [PassEnd.hole, hd]
    have hnotes : e.world.book.Notes (r.behind e).book :=
      ⟨fs, hwrites, hcloses.registered, hcloses.closed, hcloses.finished⟩
    exact World.safely_notes hnotes hsh hc hl
  · rw [PassEnd.hole, hd]
    exact safely_close (.inr rfl) hc hl hsh hwrites hcloses fun i hi =>
      (h.owner_of_shelf hw hi).1 hd

/-! ### Discoveries -/

/-- No builder discards a structural error in a discovery from the world `w`. -/
def Forwards (r : RootContext) (w : World) : Prop :=
  ∀ n search v, r.Begins w n search v → ∀ error, .discarded error ∉ r.marks search v

theorem finish_rests (r : RootContext) (passes : Nat) (search : Search) (w : World) :
    w.Rests (r.finish passes search w).2 :=
  ⟨rfl, rfl, rfl, rfl, rfl, rfl, rfl⟩

variable {o : Option Nat}

theorem finishFailed_safely (r : RootContext) (passes : Nat) (failure : Failure) (search : Search)
    (w : World) (hp : ∀ p, (r.finishFailed passes failure search w).1 ≠ .error p) :
    World.Safely o o w (r.finishFailed passes failure search w).2 := by
  have hcompleted := w.safely_completed (o := o) ⟨⟨r.context, r.name, r.location⟩, .failed failure⟩
  rw [finishFailed] at hp ⊢
  generalize w.completed ⟨⟨r.context, r.name, r.location⟩, .failed failure⟩ = c at hp hcompleted ⊢
  obtain ⟨p | h, v⟩ := c
  · exact absurd rfl (hp p)
  · exact hcompleted.trans (r.finish_rests _ _ _).safely

/-- **A discovery that ends with an error leaves nothing on the shelf of its last pass.** -/
theorem abort_safely (h : r.Yields search w e hs cs es) (hw : w.Custody none)
    (error : StructuralError) (hp : ∀ p, (r.abort e error).1 ≠ .error p) :
    World.Safely e.hole none e.world (r.abort e error).2 := by
  -- cancelling keeps custody, whoever owns the shelf of the pass
  have hcancel : World.Safely e.hole e.hole e.world (e.world.cancelAll e.search.tests).2 :=
    e.world.safely_use (.cancelAll e.search.tests)
  have hsettled := @World.cancelAll_settles e.search.tests e.world
  have howner : ∀ i k, ((e.world.cancelAll e.search.tests).2.cell i).shelf? = some k →
      (e.world.cell i).shelf? = some k := by
    intro i k
    exact World.cancelAll_keep
      (fun v => (v.cell i).shelf? = some k → (e.world.cell i).shelf? = some k)
      (fun _ hr hv hi => hv (hr.owner hi)) e.search.tests e.world id
  rw [abort] at hp ⊢
  generalize e.world.cancelAll e.search.tests = c at hp hcancel hsettled howner ⊢
  obtain ⟨p | count, v⟩ := c
  · exact absurd rfl (hp p)
  · -- whoever owned the shelf has been cancelled
    have hno : ∀ i, (v.cell i).shelf? ≠ some e.shelf := by
      intro i hi
      obtain ⟨-, k, hk, rfl⟩ := h.owner_of_shelf hw (howner i e.shelf hi)
      have hfinal := hsettled rfl k (by rw [h.tests]; exact List.mem_append_right _ hk)
      rw [World.shelf?_of_final hfinal] at hi
      cases hi
    obtain ⟨book, fs, hclose, hwrites, hcloses⟩ :=
      v.closeWarning_closes e.shelf "teardown after aborted discovery failed: " r.name
    have hclosed : World.Safely e.hole none v
        (v.closeWarning e.shelf "teardown after aborted discovery failed: " r.name) := by
      rw [hclose]
      exact safely_close e.hole_cases rfl rfl rfl hwrites hcloses hno
    have htraced : ∀ z : World, ∀ fields, z.Rests (z.trace .debug
        ("discovery aborted: " ++ error.message) fields) :=
      fun z fields => ⟨rfl, rfl, rfl, rfl, rfl, rfl, rfl⟩
    exact (hcancel.trans hclosed).trans (htraced _ _).safely

/-- What a discovery does behind its last pass. -/
theorem ends_safely (h : r.Yields search w e hs cs es) (hw : w.Custody none) {n : Nat}
    {a : Except Payload (Except StructuralError Discovery) × World} (ha : r.Ends n e a)
    (hp : ∀ p, a.1 ≠ .error p) : World.Safely e.hole none e.world a.2 := by
  have hbehind := behind_safely h hw
  cases ha with
  | aborted hf => exact abort_safely h hw _ hp
  | failedDirect hf he hd =>
    rw [behind, hd] at hbehind
    exact hbehind.trans (r.finishFailed_safely _ _ _ _ hp)
  | failedSwept hf he hd =>
    have hclosed := closeShelf_safely e.hole_cases fun i hi => (h.owner_of_shelf hw hi).1 hd
    exact hclosed.trans (r.finishFailed_safely _ _ _ _ hp)
  | finished hf he hl => exact hbehind.trans (r.finish_rests _ _ _).safely

/-- From the end of a pass to the end of the discovery. -/
theorem discoverFrom_safely {w₀ : World} (hk : r.Forwards w₀) : ∀ (fuel n : Nat) (search : Search)
    (w : World), r.Begins w₀ n search w → w.Custody none →
    (∀ p, (r.discoverFrom (fuel + 1) n search w).1 ≠ .error p) →
    World.Safely (r.runPass search w).hole none (r.runPass search w).world
      (r.discoverFrom (fuel + 1) n search w).2 := by
  intro fuel
  induction fuel with
  | zero =>
    intro n search w hb hw hp
    obtain ⟨hs, cs, es, hy⟩ := r.runPass_yields search w hb.adds.2.1
    rcases r.discoverFrom_succ 0 n search w with ⟨-, -, -, hnext⟩ | hend
    · rw [hnext]
      exact (behind_safely hy hw).trans (r.finish_rests _ _ _).safely
    · exact ends_safely hy hw hend hp
  | succ fuel ih =>
    intro n search w hb hw hp
    obtain ⟨hs, cs, es, hy⟩ := r.runPass_yields search w hb.adds.2.1
    rcases r.discoverFrom_succ (fuel + 1) n search w with ⟨hf, he, hl, hnext⟩ | hend
    · rw [hnext] at hp ⊢
      have hbegins := hb.next hf he hl
      obtain ⟨_, _, _, hy'⟩ := r.runPass_yields _ (r.behind (r.runPass search w))
        hbegins.adds.2.1
      have hpass := hy.safely (hk n search w hb)
      have hcustody := ((hpass.trans (behind_safely hy hw)) hw).2
      have hnext := (hy'.safely (hk _ _ _ hbegins)).trans (ih _ _ _ hbegins hcustody hp)
      exact (behind_safely hy hw).trans hnext
    · exact ends_safely hy hw hend hp

variable {w₀ : World}

/-- Custody is kept from pass to pass. -/
theorem begins_safely (hk : r.Forwards w₀) {n : Nat} (h : r.Begins w₀ n search w) :
    World.Safely none none w₀ w := by
  induction h with
  | first => exact World.safely_refl _
  | @next n search w h hf he hl ih =>
    intro hw₀
    obtain ⟨hs, cs, es, hy⟩ := r.runPass_yields search w h.adds.2.1
    have hpass := hy.safely (hk n search w h)
    exact (ih.trans (hpass.trans (behind_safely hy (ih hw₀).2))) hw₀

/-- **From the end of every pass to the end of the discovery custody is kept.** -/
theorem pass_safely (hk : r.Forwards w₀) {n : Nat} (h : r.Begins w₀ n search w)
    (hw : w₀.Custody none) (hp : ∀ p, (r.discover w₀).1 ≠ .error p) :
    World.Safely (r.runPass search w).hole none (r.runPass search w).world (r.discover w₀).2 := by
  obtain ⟨fuel, -, hd⟩ := discover_resumes h
  rw [hd] at hp ⊢
  exact discoverFrom_safely hk fuel n search w h (begins_safely hk h hw).2 hp

/-- **Custody is kept by a whole discovery**, whether it gives a result or an error. -/
theorem discover_safely (hk : r.Forwards w₀) (hp : ∀ p, (r.discover w₀).1 ≠ .error p) :
    World.Safely none none w₀ (r.discover w₀).2 := by
  intro hw
  obtain ⟨hs, cs, es, hy⟩ := r.runPass_yields {} w₀ rfl
  exact ((hy.safely (hk 0 {} w₀ .first)).trans (pass_safely hk .first hw hp)) hw

/-! ### Passes without a direct test -/

/-- On the way from `v` to `w` what was on the shelf `k` in `v` is closed, newest first. -/
def Clears (k : Nat) (v w : World) : Prop :=
  ∃ before closing after, v.book.Writes w.book (before ++ closing ++ after) ∧
    Closes (v.shelf k).serials closing

theorem Clears.trans {k : Nat} {u : World} (h : Clears k u v) (hw : ∃ es, v.book.Writes w.book es) :
    Clears k u w := by
  obtain ⟨before, closing, after, hclears, hcloses⟩ := h
  obtain ⟨es, hes⟩ := hw
  have hall := hclears.trans hes
  rw [List.append_assoc] at hall
  exact ⟨before, closing, after ++ es, hall, hcloses⟩

theorem clears_of_closes {k : Nat} (hw : v.book.Writes w.book es)
    (hc : Closes (v.shelf k).serials es) :
    Clears k v w :=
  ⟨[], es, [], ((Notebook.writes_refl _).trans hw).trans (Notebook.writes_refl _), hc⟩

/-- An aborted discovery closes the shelf of its last pass, behind what it cancels. -/
theorem abort_clears (he : e.world.Custody e.hole)
    (hno : ∀ i, (e.world.cell i).shelf? ≠ some e.shelf)
    {error : StructuralError} (hp : ∀ p, (r.abort e error).1 ≠ .error p) :
    Clears e.shelf e.world (r.abort e error).2 := by
  obtain ⟨⟨fs, hfs⟩, -⟩ : (∃ fs, e.world.TakesCourse (e.world.cancelAll e.search.tests).2 fs) ∧ _ :=
    e.world.safely_use (.cancelAll e.search.tests) he
  -- nobody who is cancelled owns the shelf
  obtain ⟨hshelf, -⟩ := World.cancelAll_keep
    (fun v => v.shelf e.shelf = e.world.shelf e.shelf ∧ ∀ i, (v.cell i).shelf? ≠ some e.shelf)
    (fun {v _ i _ _} hu hr ⟨hs, hv⟩ => by
      refine ⟨(hr.shelf_of_ne fun hk => hv i ?_).trans hs, fun j hj => hv j (hr.owner hj)⟩
      rw [hu]
      exact hk) e.search.tests e.world ⟨rfl, hno⟩
  rw [abort] at hp ⊢
  generalize e.world.cancelAll e.search.tests = c at hp hfs hshelf ⊢
  obtain ⟨p | count, v⟩ := c
  · exact absurd rfl (hp p)
  · obtain ⟨book, cs, hclose, hwrites, hcloses⟩ :=
      v.closeWarning_closes e.shelf "teardown after aborted discovery failed: " r.name
    rw [hshelf] at hcloses
    refine ⟨fs, cs, [], ?_, hcloses⟩
    dsimp only
    rw [hclose]
    exact (hfs.writes.trans hwrites).trans (Notebook.writes_nil rfl rfl)

theorem begun_writes (hk : r.Forwards w₀) {n : Nat} (h : r.Begins w₀ n search w)
    (hw₀ : w₀.Custody none) (hp : ∀ p, (r.discover w₀).1 ≠ .error p) :
    ∃ es, w.book.Writes (r.discover w₀).2.book es := by
  obtain ⟨_, _, es, hy⟩ := r.runPass_yields search w h.adds.2.1
  have he := (hy.safely (hk n search w h) (begins_safely hk h hw₀).2).2
  obtain ⟨⟨fs, hfs⟩, -⟩ := pass_safely hk h hw₀ hp he
  exact ⟨es ++ fs, hy.writes.trans hfs.writes⟩

/-- **A pass without a direct test leaves nothing on its shelf**: it is closed before another pass
begins, and before the discovery ends. -/
theorem undirected_clears (hk : r.Forwards w₀) {n : Nat} (h : r.Begins w₀ n search w)
    (hw₀ : w₀.Custody none) (hp : ∀ p, (r.discover w₀).1 ≠ .error p)
    (hd : (r.runPass search w).direct = none) :
    Clears (r.runPass search w).shelf (r.runPass search w).world (r.behind (r.runPass search w)) ∧
      Clears (r.runPass search w).shelf (r.runPass search w).world (r.discover w₀).2 := by
  obtain ⟨hs, cs, es, hy⟩ := r.runPass_yields search w h.adds.2.1
  have hw := (begins_safely hk h hw₀).2
  have he := (hy.safely (hk n search w h) hw).2
  have hno := fun i hi => (hy.owner_of_shelf hw (i := i) hi).1 hd
  have hbehind : Clears (r.runPass search w).shelf (r.runPass search w).world
      (r.behind (r.runPass search w)) := by
    obtain ⟨fs, hwrites, -, -, -, ⟨⟨d, hsome⟩, -⟩ | ⟨-, hcloses, -⟩⟩ :=
      r.behind_writes (r.runPass search w)
    · rw [hd] at hsome
      cases hsome
    · exact clears_of_closes hwrites hcloses
  refine ⟨hbehind, ?_⟩
  obtain ⟨fuel, -, hdiscover⟩ := discover_resumes h
  rcases r.discoverFrom_succ fuel n search w with ⟨hf, hfailure, hl, -⟩ | hend
  · exact hbehind.trans (begun_writes hk (h.next hf hfailure hl) hw₀ hp)
  · rw [← hdiscover] at hend
    generalize r.discover w₀ = a at hend hp
    cases hend with
    | aborted hf => exact abort_clears he hno hp
    | failedDirect hf hfailure hsome =>
      rw [hd] at hsome
      cases hsome
    | failedSwept hf hfailure _ =>
      obtain ⟨fs, hwrites, hcloses⟩ := Notebook.sweep_writes _ (r.runPass search w).world.book
      have hclosed := (closeShelf_safely (r.runPass search w).hole_cases hno he).2
      obtain ⟨⟨es', hes⟩, -⟩ := finishFailed_safely r _ _ _ _ hp hclosed
      exact (clears_of_closes hwrites hcloses).trans ⟨es', hes.writes⟩
    | finished hf hfailure hl => exact hbehind.trans ⟨[], (r.finish_rests _ _ _).writes⟩

end RootContext

end TestTree
