/-
What may happen to callbacks and units between two moments of a run.

* `World.TakesCourse` : callbacks are conserved, final cells stay as they are, and every unit that
  had not begun has taken its course;
* `World.Custody` : every callback is accounted for, and each that waits has one owner;
* `World.Safely` : a way from one world to another on which custody is kept;
* `World.safely_use` : **whatever is done with handles, custody is kept**;
* `World.Custody.pending_eq_nil` : **when no unit is left, every callback was closed.**

## Design notes

One unit comes to its end at a time.  It closes nothing that belongs to another one, because no two
units own the same shelf and because serial numbers are never given twice.
-/
import TestTree.Proofs.Custody

namespace TestTree

namespace World

variable {u v w : World} {es fs : List Event} {unit : TestUnit} {i j k : Nat}

/-! ### What may happen between two moments -/

/-- Between `v` and `w` the events `es` were written.  Every callback that was registered was closed
or waits, cells that were final stay as they are, and every unit that had not begun took its
course. -/
structure TakesCourse (v w : World) (es : List Event) : Prop extends Conserves v w es where
  listener : w.listener = v.listener
  length : v.cells.length ≤ w.cells.length
  final : ∀ i, i < v.cells.length → (v.cell i).isSuspended = false → w.cell i = v.cell i
  course : ∀ i unit, v.cell i = .suspended unit → v.Course w i unit es

theorem TakesCourse.trans (h : u.TakesCourse v es) (k : v.TakesCourse w fs) :
    u.TakesCourse w (es ++ fs) where
  toConserves := h.toConserves.trans k.toConserves
  listener := k.listener.trans h.listener
  length := h.length.trans k.length
  final i hi hu := by
    have hv := h.final i hi hu
    rw [← hv] at hu ⊢
    exact k.final i (Nat.lt_of_lt_of_le hi h.length) hu
  course i unit hu := by
    have hi : i < v.cells.length := Nat.lt_of_lt_of_le (lt_of_suspended hu) h.length
    cases h.course i unit hu with
    | waits hc hs hn =>
      -- what became of it later is what became of it in all
      have hnot : ∀ fs', (∀ n ∈ (v.stock unit).serials, n ∉ closedIn fs') →
          ∀ n ∈ (u.stock unit).serials, n ∉ closedIn (es ++ fs') := by
        intro fs' hfs n hmem
        rw [closedIn_append, List.mem_append, not_or]
        exact ⟨hn n hmem, hfs n (hs ▸ hmem)⟩
      cases k.course i unit hc with
      | waits hc' hs' hn' => exact .waits hc' (hs'.trans hs) (hnot _ hn')
      | @unrun hc' before closing after he hn' hclosing =>
        have hall : es ++ fs = (es ++ before) ++ closing ++ after := by
          simp only [he, List.append_assoc]
        rw [hs] at hclosing
        exact .unrun hc' hall (hnot before hn') hclosing
      | @ran hc' before walk closing after he hn' z hz hwalk hquiet hclosing =>
        have hall : es ++ fs = (es ++ before) ++ walk ++ closing ++ after := by
          simp only [he, List.append_assoc]
        rw [hs] at hclosing hz
        rw [h.listener] at hz
        exact .ran hc' hall (hnot before hn') hz hwalk hquiet hclosing
    | @unrun hc before closing after he hn hclosing =>
      have hw : w.cell i = v.cell i := k.final i hi
        (by rcases hc with hc | hc | hc <;> rw [hc] <;> rfl)
      rw [← hw] at hc
      exact .unrun hc (by rw [he, List.append_assoc]) hn hclosing
    | @ran hc before walk closing after he hn z hz hwalk hquiet hclosing =>
      have hw : w.cell i = v.cell i := k.final i hi
        (by rcases hc with ⟨o, hc⟩ | hc <;> rw [hc] <;> rfl)
      rw [← hw] at hc
      exact .ran hc (by rw [he, List.append_assoc]) hn hz hwalk hquiet hclosing

/-- A step that leaves all cells as they are, and what they own. -/
theorem takesCourse_still (h : v.Conserves w es) (hl : w.listener = v.listener)
    (hc : v.cells <+: w.cells)
    (hkeep : ∀ i unit, v.cell i = .suspended unit →
      w.stock unit = v.stock unit ∧ ∀ n ∈ (v.stock unit).serials, n ∉ closedIn es) :
    v.TakesCourse w es := by
  refine ⟨h, hl, hc.length_le, fun i hi _ => cell_of_isPrefix hc hi, fun i unit hu => ?_⟩
  obtain ⟨hs, hn⟩ := hkeep i unit hu
  exact .waits ((cell_of_isPrefix hc (lt_of_suspended hu)).trans hu) hs hn

/-! ### Custody -/

/-- All callbacks so far are accounted for, and each that waits has one owner.  The shelf `hole`
needs none. -/
structure Custody (hole : Option Nat) (w : World) : Prop where
  held : w.Held 0 0 hole
  unshared : w.Unshared
  accounted : w.Accounted

theorem custody_fresh (pool : Pool Nat) (l : Listener) (policy : StartPolicy) :
    (fresh pool l policy).Custody none := by
  have howner : ∀ i k, ((fresh pool l policy).cell i).shelf? ≠ some k := fun i k h => by
    cases h
  exact ⟨⟨fun i k _ h => absurd h (howner i k), fun k _ h => absurd rfl h⟩,
    fun i j k h => absurd h (howner i k), .refl _⟩

variable {o p q : Option Nat}

theorem Custody.houses (h : w.Custody o) (hu : w.cell i = .suspended unit) : w.Houses unit := by
  intro k hk
  refine (h.held.housed i k (Nat.zero_le _) ?_).2
  rw [hu]
  exact hk

theorem mem_pending_of_stock {n : Nat} (h : n ∈ (w.stock unit).serials) : n ∈ w.pending := by
  rw [stock] at h
  cases hk : unit.shelf? with
  | none =>
    rw [hk] at h
    cases h
  | some k =>
    rw [hk] at h
    exact mem_pending_of_shelf h

/-- **If every callback that waits has an owner, and no unit is left, then no callback waits.** -/
theorem Custody.pending_eq_nil (h : w.Custody none) (hw : ∀ i, (w.cell i).isSuspended = false) :
    w.pending = [] := by
  rw [List.eq_nil_iff_forall_not_mem]
  intro n hn
  obtain ⟨r, hr, -⟩ := List.mem_map.mp hn
  obtain ⟨s, hs, hrs⟩ := List.mem_flatten.mp hr
  obtain ⟨k, hk⟩ := List.mem_iff_getElem?.mp hs
  have hne : w.shelf k ≠ [] := by
    rw [shelf, hk]
    exact List.ne_nil_of_mem hrs
  rcases h.held.held k (Nat.zero_le _) hne with ho | ⟨i, -, hi⟩
  · cases ho
  · rw [shelf?_of_final (hw i)] at hi
    cases hi

/-- On the way from `v` to `w` custody is kept; the shelf `o` may be without an owner before, and
the shelf `p` behind. -/
def Safely (o p : Option Nat) (v w : World) : Prop :=
  v.Custody o → (∃ es, v.TakesCourse w es) ∧ w.Custody p

theorem Safely.trans (h : Safely o p u v) (k : Safely p q v w) : Safely o q u w := by
  intro hu
  obtain ⟨⟨es, hes⟩, hv⟩ := h hu
  obtain ⟨⟨fs, hfs⟩, hw⟩ := k hv
  exact ⟨⟨es ++ fs, hes.trans hfs⟩, hw⟩

/-- A step that registers and closes nothing, and makes cells that own nothing. -/
theorem safely_still (hw : v.book.Writes w.book es) (hq : closedIn es = [])
    (hr : registeredIn es = []) (hs : w.shelves = v.shelves) {cs : List (Cell TestUnit Outcome)}
    (hc : w.cells = v.cells ++ cs) (hcs : ∀ c ∈ cs, c.shelf? = none)
    (hl : w.listener = v.listener) : Safely o o v w := by
  intro hv
  have h := conserves_still hw hq hr hs
  refine ⟨⟨es, takesCourse_still h hl ⟨cs, hc.symm⟩ fun i unit _ => ⟨?_, fun n _ => ?_⟩⟩,
    hv.held.append hs hc hcs, fun i j k hi hj => ?_, h.accounted hv.accounted⟩
  · rw [stock, shelf_congr hs]
    rfl
  · rw [hq]
    exact List.not_mem_nil
  · exact hv.unshared i j k ((owner_append hc hcs).mp hi) ((owner_append hc hcs).mp hj)

/-- A step that writes something down. -/
theorem safely_notes (hb : v.book.Notes w.book) (hs : w.shelves = v.shelves)
    (hc : w.cells = v.cells) (hl : w.listener = v.listener) : Safely o o v w := by
  obtain ⟨es, hw, hp⟩ := hb
  exact safely_still hw hp.closed hp.registered hs (hc.trans (List.append_nil _).symm)
    (List.forall_mem_nil _) hl

theorem safely_refl (w : World) : Safely o o w w :=
  safely_notes w.book.notes_refl rfl rfl rfl

theorem Rests.safely (h : v.Rests w) : Safely o o v w :=
  safely_notes (Notebook.notes_of_eq h.acts h.serials) h.shelves h.cells h.listener

/-- A handle for a known outcome, or a panic of the listener that is told of it. -/
theorem safely_completed (w : World) (outcome : Outcome) :
    Safely o o w (w.completed outcome).2 := by
  have hw := w.book.writes_add (e := .notified (.finished outcome)) rfl rfl
  rw [completed, notify, Notebook.notify]
  cases w.listener.panic? (.finished outcome) with
  | some p =>
    exact safely_still hw rfl rfl rfl (List.append_nil _).symm (List.forall_mem_nil _) rfl
  | none =>
    refine safely_still hw rfl rfl rfl rfl (fun c hc => ?_) rfl
    rw [List.mem_singleton.mp hc]
    rfl

/-- **A unit that comes to its end touches no other unit, nor what another one owns.** -/
theorem Retires.safely (h : v.Retires w i unit es) (hu : v.cell i = .suspended unit) :
    Safely o o v w := by
  intro hv
  refine ⟨⟨es, h.conserves, h.listener, h.length.ge, fun j _ hj => ?_, fun j other hj => ?_⟩,
    h.held hu hv.held, h.unshared hv.unshared, h.conserves.accounted hv.accounted⟩
  · refine h.cell_of_ne fun hji => ?_
    rw [hji, hu] at hj
    cases hj
  · by_cases hji : j = i
    · subst hji
      obtain rfl : unit = other := Cell.suspended.inj (hu.symm.trans hj)
      exact h.course
    · -- the two own different shelves, if any
      have hne : ∀ k, other.shelf? = some k → unit.shelf? ≠ some k := by
        intro k hk hk'
        refine hji (hv.unshared j i k ?_ ?_)
        · rwa [hj]
        · rwa [hu]
      refine .waits ((h.cell_of_ne hji).trans hj) ?_ fun n hn => ?_
      · rw [stock, stock]
        cases hk : other.shelf? with
        | none => rfl
        | some k => exact h.shelf_of_ne (hne k hk)
      · have hfresh := hv.accounted.fresh h.writes (mem_pending_of_stock hn)
        rw [h.closed, List.mem_append, List.mem_reverse, not_or]
        refine ⟨hfresh, fun hmem => ?_⟩
        rw [stock] at hn hmem
        cases hk : other.shelf? with
        | none =>
          rw [hk] at hn
          cases hn
        | some k =>
          cases hk' : unit.shelf? with
          | none =>
            rw [hk'] at hmem
            cases hmem
          | some k' =>
            rw [hk] at hn
            rw [hk'] at hmem
            have hkk : k' ≠ k := fun heq => hne k hk (heq ▸ hk')
            exact hv.accounted.disjoint hkk hmem hn

/-! ### Uses -/

theorem safely_runCell (w : World) (i : Nat) : Safely o o w (w.runCell i).2 := by
  intro hw
  by_cases hu : ∃ unit, w.cell i = .suspended unit
  · obtain ⟨unit, hu⟩ := hu
    obtain ⟨es, h⟩ := runCell_retires hu (hw.houses hu)
    exact h.safely hu hw
  · rw [runCell_of_ne fun unit h => hu ⟨unit, h⟩]
    exact safely_refl w hw

theorem safely_cancel (w : World) (h : Handle) : Safely o o w (w.cancel h).2 := by
  by_cases hu : ∃ unit, w.cell h.cell = .suspended unit
  · obtain ⟨unit, hu⟩ := hu
    obtain ⟨es, hr, -⟩ := cancel_retires hu
    exact hr.safely hu
  · rw [cancel_of_ne fun unit h => hu ⟨unit, h⟩]
    exact safely_refl w

theorem safely_drop (w : World) (h : Handle) : Safely o o w (w.drop h) := by
  rw [drop]
  split
  · exact safely_refl w
  · split
    · rename_i unit hu
      obtain ⟨es, hr⟩ := discard_retires hu
      exact hr.safely hu
    · exact safely_refl w

theorem safely_dropAll (hs : List Handle) : ∀ w : World, Safely o o w (w.dropAll hs) := by
  induction hs with
  | nil => exact safely_refl
  | cons h rest ih => intro w; exact (safely_drop w h).trans (ih _)

theorem Moves.safely {hs : List Handle} (h : Moves hs v w) : Safely o o v w := by
  induction h with
  | refl => exact safely_refl v
  | tail _ hm ih =>
    refine ih.trans ?_
    cases hm with
    | rest h => exact h.safely
    | run hh => exact safely_runCell _ _
    | cancel hh => exact safely_cancel _ _

/-- **Whatever is done with handles, custody is kept.** -/
theorem safely_use (w : World) (use : Use) : Safely o o w (w.use use) := by
  -- what is queued is handled like what is used
  let hs := w.pool.queue.map (fun i => (⟨default, i⟩ : Handle)) ++ use.handles
  have hwithin : w.Within hs := fun i hi =>
    ⟨⟨default, i⟩, List.mem_append_left _ (List.mem_map_of_mem hi), rfl⟩
  exact (movesWithin_use (fun h hh => List.mem_append_right _ hh) w hwithin).1.safely

end World

end TestTree
