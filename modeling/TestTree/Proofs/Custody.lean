/-
Custody of close callbacks: where they wait, and what becomes of the units that own them.

* `World.pending` : the callbacks that wait on shelves;
* `World.Conserves` : what was registered was closed or waits, between two moments;
* `World.Accounted` : the same for a whole run, in which no callback is closed twice;
* `World.Held`, `World.Unshared` : every callback that waits has an owner, and only one;
* `World.Course` : what became of a unit and of the callbacks that it owned;
* `World.runCell_retires`, `cancel_retires`, `discard_retires` : **however a unit comes to its end,
  what it owned is closed then**, and not before its script has ended.

## Design notes

A shelf outlives its owner, so owners are known by the numbers of shelves.  While a pass goes on,
its shelf may have no owner yet; `hole` is that shelf.
-/
import TestTree.Proofs.Ledger
import TestTree.Proofs.Ownership

namespace TestTree

open scoped List

/-! ### Cells and shelves -/

/-- Taking one of several lists away. -/
theorem perm_flatten_set {α : Type} (ls : List (List α)) : ∀ k : Nat,
    (ls[k]?.getD [] ++ (ls.set k []).flatten).Perm ls.flatten := by
  induction ls with
  | nil => intro k; exact .refl _
  | cons l rest ih =>
    intro k
    cases k with
    | zero => exact .refl _
    | succ k =>
      show (rest[k]?.getD [] ++ (l ++ (rest.set k []).flatten)).Perm (l ++ rest.flatten)
      exact (List.perm_append_comm_assoc _ _ _).trans ((ih k).append_left l)

namespace World

variable {u v w : World} {es fs : List Event} {unit : TestUnit} {i j k : Nat}

theorem cell_congr (h : w.cells = v.cells) : w.cell = v.cell := by
  funext i
  rw [cell, h]
  rfl

theorem cell_of_isPrefix (h : v.cells <+: w.cells) (hi : i < v.cells.length) :
    w.cell i = v.cell i := by
  obtain ⟨more, hmore⟩ := h
  rw [cell, ← hmore, List.getElem?_append_left hi]
  rfl

theorem cell_of_set {c : Cell TestUnit Outcome} (h : w.cells = v.cells.set i c)
    (hi : i < v.cells.length) : w.cell i = c := by
  rw [cell, h, List.getElem?_set_self hi]
  rfl

theorem cell_of_set_ne {c : Cell TestUnit Outcome} (h : w.cells = v.cells.set i c) (hj : j ≠ i) :
    w.cell j = v.cell j := by
  rw [cell, h, List.getElem?_set_ne hj.symm]
  rfl

theorem shelf_congr (h : w.shelves = v.shelves) : w.shelf = v.shelf := by
  funext k
  rw [shelf, h]
  rfl

theorem shelf_of_set (h : w.shelves = v.shelves.set k []) : w.shelf k = [] := by
  rw [shelf, h]
  exact shelf_putCloset_nil (v := v) k v.book

theorem shelf_of_set_ne (h : w.shelves = v.shelves.set k []) (hj : j ≠ k) :
    w.shelf j = v.shelf j := by
  rw [shelf, h, List.getElem?_set_ne hj.symm]
  rfl

/-! ### Callbacks that wait -/

/-- The callbacks that wait on shelves. -/
def pending (w : World) : List Nat :=
  Shelf.serials w.shelves.flatten

theorem mem_pending_of_shelf {n : Nat} (h : n ∈ (w.shelf k).serials) : n ∈ w.pending := by
  obtain ⟨r, hr, rfl⟩ := List.mem_map.mp h
  rw [shelf] at hr
  cases hk : w.shelves[k]? with
  | none =>
    rw [hk] at hr
    cases hr
  | some s =>
    rw [hk] at hr
    exact List.mem_map_of_mem (List.mem_flatten_of_mem (List.mem_of_getElem? hk) hr)

/-- What is taken off one shelf does not wait any more. -/
theorem perm_pending_set (hw : w.shelves = v.shelves.set k []) :
    ((v.shelf k).serials ++ w.pending).Perm v.pending := by
  rw [pending, hw, Shelf.serials, Shelf.serials, ← List.map_append]
  exact (perm_flatten_set v.shelves k).map _

theorem perm_pending_emptied (hw : w.shelves = v.emptied unit) :
    ((v.stock unit).serials ++ w.pending).Perm v.pending := by
  unfold emptied at hw
  unfold stock
  cases hk : unit.shelf? with
  | some k =>
    rw [hk] at hw
    exact perm_pending_set hw
  | none =>
    rw [hk] at hw
    rw [pending, hw]
    exact .refl _

/-- What was registered while `es` were written was closed, or waits. -/
structure Conserves (v w : World) (es : List Event) : Prop where
  writes : v.book.Writes w.book es
  conserved : (closedIn es ++ w.pending).Perm (registeredIn es ++ v.pending)

theorem Conserves.trans (h : u.Conserves v es) (k : v.Conserves w fs) :
    u.Conserves w (es ++ fs) where
  writes := h.writes.trans k.writes
  conserved := by
    rw [closedIn_append, registeredIn_append, List.append_assoc, List.append_assoc]
    calc closedIn es ++ (closedIn fs ++ w.pending)
      _ ~ closedIn es ++ (registeredIn fs ++ v.pending) := k.conserved.append_left _
      _ ~ registeredIn fs ++ (closedIn es ++ v.pending) := List.perm_append_comm_assoc _ _ _
      _ ~ registeredIn fs ++ (registeredIn es ++ u.pending) := h.conserved.append_left _
      _ ~ registeredIn es ++ (registeredIn fs ++ u.pending) := List.perm_append_comm_assoc _ _ _

/-- Nothing is registered or closed. -/
theorem conserves_still (hw : v.book.Writes w.book es) (hc : closedIn es = [])
    (hr : registeredIn es = []) (hs : w.shelves = v.shelves) : v.Conserves w es where
  writes := hw
  conserved := by
    rw [hc, hr, pending, hs]
    exact .refl _

/-- Callbacks `ns` that waited are closed behind those that are registered on the way. -/
theorem conserves_closed (hw : v.book.Writes w.book es) {ns : List Nat}
    (hc : closedIn es = (registeredIn es).reverse ++ ns) (hp : (ns ++ w.pending).Perm v.pending) :
    v.Conserves w es where
  writes := hw
  conserved := by
    rw [hc, List.append_assoc]
    exact (List.reverse_perm _).append hp

/-- What is on one shelf is closed. -/
theorem conserves_shelf (hw : v.book.Writes w.book es) (hc : Closes (v.shelf k).serials es)
    (hs : w.shelves = v.shelves.set k []) : v.Conserves w es := by
  refine conserves_closed hw ?_ (perm_pending_set hs)
  rw [hc.closed, hc.registered]
  rfl

/-- The callbacks that were closed so far, in the order in which they were closed. -/
def closings (w : World) : List Nat :=
  closedIn w.book.acts.reverse

/-- Every callback that was ever registered was closed, or waits. -/
def Accounted (w : World) : Prop :=
  (w.closings ++ w.pending).Perm (List.range w.book.serials)

theorem closings_of_writes (h : v.book.Writes w.book es) :
    w.closings = v.closings ++ closedIn es := by
  rw [closings, h.acts, List.reverse_append, List.reverse_reverse, closedIn_append]
  rfl

theorem Conserves.accounted (h : v.Conserves w es) (hv : v.Accounted) : w.Accounted := by
  have hrange : List.range w.book.serials = List.range v.book.serials ++ registeredIn es := by
    rw [h.writes.serials, List.range_add, h.writes.numbers, List.length_range',
      List.range'_eq_map_range]
  rw [Accounted, closings_of_writes h.writes, List.append_assoc, hrange]
  calc v.closings ++ (closedIn es ++ w.pending)
    _ ~ v.closings ++ (registeredIn es ++ v.pending) := h.conserved.append_left _
    _ ~ registeredIn es ++ (v.closings ++ v.pending) := List.perm_append_comm_assoc _ _ _
    _ ~ registeredIn es ++ List.range v.book.serials := hv.append_left _
    _ ~ List.range v.book.serials ++ registeredIn es := List.perm_append_comm

theorem Accounted.nodup (h : w.Accounted) : (w.closings ++ w.pending).Nodup :=
  h.nodup_iff.mpr List.nodup_range

/-- What waits was registered before. -/
theorem Accounted.lt (h : w.Accounted) {n : Nat} (hn : n ∈ w.pending) : n < w.book.serials :=
  List.mem_range.mp (h.mem_iff.mp (List.mem_append_right _ hn))

/-- What is registered later did not wait before. -/
theorem Accounted.fresh (h : v.Accounted) (hw : v.book.Writes w.book es) {n : Nat}
    (hn : n ∈ v.pending) : n ∉ registeredIn es := by
  intro hr
  have hlt := h.lt hn
  rw [hw.numbers, List.mem_range'_1] at hr
  omega

/-- No callback waits on two shelves. -/
theorem Accounted.disjoint (h : w.Accounted) {n : Nat} (hne : i ≠ j)
    (hi : n ∈ (w.shelf i).serials) :
    n ∉ (w.shelf j).serials := by
  intro hj
  -- take the one shelf away: what is on the other one still waits
  let v : World := { w with shelves := w.shelves.set i [] }
  have hp : ((w.shelf i).serials ++ v.pending).Perm w.pending := perm_pending_set rfl
  have hnd := hp.nodup_iff.mpr (List.nodup_append.mp h.nodup).2.1
  have hv : v.shelf j = w.shelf j := shelf_of_set_ne rfl hne.symm
  have hmem : n ∈ v.pending := mem_pending_of_shelf (k := j) (by rwa [hv])
  exact (List.nodup_append.mp hnd).2.2 n hi n hmem rfl

/-! ### Owners of what waits -/

/-- Among the shelves from number `k₀` on, each on which callbacks wait is owned by the unit of a
cell from number `n₀` on, and these cells own no other shelves.  The shelf `hole` needs no owner. -/
structure Held (n₀ k₀ : Nat) (hole : Option Nat) (w : World) : Prop where
  housed : ∀ i k, n₀ ≤ i → (w.cell i).shelf? = some k → k₀ ≤ k ∧ k < w.shelves.length
  held : ∀ k, k₀ ≤ k → w.shelf k ≠ [] → hole = some k ∨ ∃ i, n₀ ≤ i ∧ (w.cell i).shelf? = some k

/-- No shelf is owned by two cells. -/
def Unshared (w : World) : Prop :=
  ∀ i j k, (w.cell i).shelf? = some k → (w.cell j).shelf? = some k → i = j

theorem lt_of_owner (h : (w.cell i).shelf? = some k) : i < w.cells.length := by
  by_contra hi
  rw [cell, List.getElem?_eq_none (Nat.le_of_not_lt hi)] at h
  cases h

theorem nodup_owners_iff : w.owners.Nodup ↔ w.Unshared := by
  have hcell : ∀ i (hi : i < w.cells.length), w.cell i = w.cells[i] := by
    intro i hi
    rw [cell, List.getElem?_eq_getElem hi]
    rfl
  rw [owners, List.Nodup, List.pairwise_filterMap, List.pairwise_iff_getElem]
  constructor
  · intro h i j k hi hj
    have hil := lt_of_owner hi
    have hjl := lt_of_owner hj
    rw [hcell i hil] at hi
    rw [hcell j hjl] at hj
    rcases Nat.lt_trichotomy i j with hij | hij | hij
    · exact absurd rfl (h i j hil hjl hij k hi k hj)
    · exact hij
    · exact absurd rfl (h j i hjl hil hij k hj k hi)
  · intro h i j hil hjl hij k hi k' hj hk
    subst hk
    rw [← hcell] at hi hj
    exact absurd (h i j k hi hj) (Nat.ne_of_lt hij)

theorem mem_owners : k ∈ w.owners ↔ ∃ i, (w.cell i).shelf? = some k := by
  rw [owners, List.mem_filterMap]
  constructor
  · rintro ⟨c, hc, hk⟩
    obtain ⟨i, hi⟩ := List.mem_iff_getElem?.mp hc
    exact ⟨i, by rwa [cell, hi]⟩
  · rintro ⟨i, hi⟩
    refine ⟨w.cell i, ?_, hi⟩
    rw [cell, List.getElem?_eq_getElem (lt_of_owner hi)]
    exact List.getElem_mem _

/-- New cells that own nothing. -/
theorem owner_append {cs : List (Cell TestUnit Outcome)} (hc : w.cells = v.cells ++ cs)
    (hcs : ∀ c ∈ cs, c.shelf? = none) :
    (w.cell i).shelf? = some k ↔ (v.cell i).shelf? = some k := by
  by_cases hi : i < v.cells.length
  · rw [cell, hc, List.getElem?_append_left hi]
    rfl
  · have hle := Nat.le_of_not_lt hi
    constructor
    · intro h
      have hlt := lt_of_owner h
      rw [hc, List.length_append] at hlt
      rw [cell, hc, List.getElem?_append_right hle, List.getElem?_eq_getElem (by omega)] at h
      rw [show (some cs[i - v.cells.length]).getD .discarded = cs[i - v.cells.length] from rfl,
        hcs _ (List.getElem_mem _)] at h
      cases h
    · intro h
      exact absurd (lt_of_owner h) hi

theorem Held.append {n₀ k₀ : Nat} {hole : Option Nat} {cs : List (Cell TestUnit Outcome)}
    (h : v.Held n₀ k₀ hole) (hs : w.shelves = v.shelves) (hc : w.cells = v.cells ++ cs)
    (hcs : ∀ c ∈ cs, c.shelf? = none) : w.Held n₀ k₀ hole := by
  constructor
  · intro i k hi hk
    rw [hs]
    exact h.housed i k hi ((owner_append hc hcs).mp hk)
  · intro k hk hne
    rw [shelf_congr hs] at hne
    exact (h.held k hk hne).imp_right fun ⟨i, hi, hik⟩ => ⟨i, hi, (owner_append hc hcs).mpr hik⟩

theorem shelf?_of_final {c : Cell TestUnit Outcome} (h : c.isSuspended = false) :
    c.shelf? = none := by
  cases c with
  | suspended u => cases h
  | _ => rfl

/-! ### Courses -/

/-- What became of the unit `unit`, which was in the cell `i` in the world `v`, until the world `w`,
while `es` were written. -/
inductive Course (v w : World) (i : Nat) (unit : TestUnit) (es : List Event) : Prop
  /-- It has not begun, and nothing that it owns was closed. -/
  | waits (hc : w.cell i = .suspended unit) (hs : w.stock unit = v.stock unit)
      (hn : ∀ n ∈ (v.stock unit).serials, n ∉ closedIn es)
  /-- It was cancelled, abandoned or dropped without having run.  What it owned was closed then, in
  reverse order of registration. -/
  | unrun (hc : w.cell i = .cancelled ∨ w.cell i = .abandoned ∨ w.cell i = .discarded)
      {before closing after : List Event} (he : es = before ++ closing ++ after)
      (hn : ∀ n ∈ (v.stock unit).serials, n ∉ closedIn before)
      (hclosing : Closes (v.stock unit).serials closing)
  /-- It was run in a world `z`, and its script wrote `walk`.  Then what the script had registered
  was closed, and what the unit owned, in reverse order of registration. -/
  | ran (hc : (∃ o, w.cell i = .done o) ∨ w.cell i = .abandoned)
      {before walk closing after : List Event} (he : es = before ++ walk ++ closing ++ after)
      (hn : ∀ n ∈ (v.stock unit).serials, n ∉ closedIn before)
      {z : World} (hz : z.listener = v.listener ∧ z.stock unit = v.stock unit)
      (hwalk : z.book.Writes (z.walked unit).book walk) (hquiet : closedIn walk = [])
      (hclosing : Closes ((registeredIn walk).reverse ++ (v.stock unit).serials) closing)

/-- The unit of the cell `i` comes to its end between `v` and `w`, while `es` were written. -/
structure Retires (v w : World) (i : Nat) (unit : TestUnit) (es : List Event) : Prop where
  cells : ∃ c, c.isSuspended = false ∧ w.cells = v.cells.set i c
  shelves : w.shelves = v.emptied unit
  listener : w.listener = v.listener
  writes : v.book.Writes w.book es
  closed : closedIn es = (registeredIn es).reverse ++ (v.stock unit).serials
  course : v.Course w i unit es

/-- A unit that is not run: what it owns is closed. -/
theorem retires_unrun (hi : i < v.cells.length) {c : Cell TestUnit Outcome}
    (hc : c = .cancelled ∨ c = .abandoned ∨ c = .discarded) (hcells : w.cells = v.cells.set i c)
    (hs : w.shelves = v.emptied unit) (hl : w.listener = v.listener)
    {before closing after : List Event}
    (hw : v.book.Writes w.book (before ++ closing ++ after))
    (hbefore : closedIn before = [] ∧ registeredIn before = [])
    (hclosing : Closes (v.stock unit).serials closing)
    (hafter : closedIn after = [] ∧ registeredIn after = []) :
    v.Retires w i unit (before ++ closing ++ after) where
  cells := by
    refine ⟨c, ?_, hcells⟩
    rcases hc with rfl | rfl | rfl <;> rfl
  shelves := hs
  listener := hl
  writes := hw
  closed := by simp [hbefore, hafter, hclosing.closed, hclosing.registered]
  course := by
    have hcell := cell_of_set hcells hi
    refine .unrun ?_ rfl ?_ hclosing
    · rwa [hcell]
    · simp [hbefore]

/-- A unit that is run in the world in which it begins. -/
theorem retires_ran (hi : i < v.cells.length) (hu : v.Houses unit) {c : Cell TestUnit Outcome}
    (hc : (∃ o, c = .done o) ∨ c = .abandoned) (hcells : w.cells = v.cells.set i c)
    (hs : w.shelves = ((v.begun i unit).runUnit unit).2.shelves) (hl : w.listener = v.listener)
    {after : List Event} (hw : ((v.begun i unit).runUnit unit).2.book.Writes w.book after)
    (hafter : closedIn after = [] ∧ registeredIn after = []) : ∃ es, v.Retires w i unit es := by
  have hbegin : v.book.Writes (v.begun i unit).book [.notified (.started unit.test)] :=
    v.book.writes_add rfl rfl
  have hhouses : (v.begun i unit).Houses unit := hu
  obtain ⟨walk, closing, hwalk, hquiet, -, hclosing, hcloses⟩ := runUnit_writes hhouses
  rw [runUnit_walked hhouses] at hs
  have hcell := cell_of_set hcells hi
  refine ⟨[.notified (.started unit.test)] ++ walk ++ closing ++ after, ⟨c, ?_, hcells⟩, hs, hl,
    ((hbegin.trans hwalk).trans hclosing).trans hw, ?_, ?_⟩
  · rcases hc with ⟨o, rfl⟩ | rfl <;> rfl
  · have hstock : (v.begun i unit).stock unit = v.stock unit := rfl
    simp [hafter, hquiet, hcloses.closed, hcloses.registered, hstock, Event.closed?,
      Event.registered?]
  · refine .ran (z := v.begun i unit) ?_ rfl ?_ ⟨rfl, rfl⟩ hwalk hquiet hcloses
    · rwa [hcell]
    · simp [Event.closed?]

/-- **A unit that is run, or would be if the listener did not panic, comes to its end.** -/
theorem runCell_retires (hu : v.cell i = .suspended unit) (hh : v.Houses unit) :
    ∃ es, v.Retires (v.runCell i).2 i unit es := by
  have hi := lt_of_suspended hu
  have hbegin : v.book.Writes (v.begun i unit).book [.notified (.started unit.test)] :=
    v.book.writes_add rfl rfl
  have hstart : (v.setCell i .running).notify (.started unit.test)
      = (v.listener.panic? (.started unit.test), v.begun i unit) := rfl
  rw [runCell, hu]
  dsimp only
  rw [hstart]
  cases v.listener.panic? (.started unit.test) with
  | some p =>
    obtain ⟨book, closing, hdrop, hw, hclosing⟩ := (v.begun i unit).dropUnit_closes unit
    have hall := (hbegin.trans hw).trans book.writes_refl
    dsimp only
    rw [hdrop]
    let x : World := { v.begun i unit with book, shelves := v.emptied unit }
    exact ⟨_, retires_unrun (w := x.setCell i .abandoned) hi (.inr (.inl rfl)) (List.set_set ..) rfl
      rfl hall ⟨rfl, rfl⟩ hclosing ⟨rfl, rfl⟩⟩
  | none =>
    have hcells := (v.begun i unit).cells_runUnit unit
    have hlistener := (v.begun i unit).listener_runUnit unit
    -- the unit has run; what is left is to tell the listener, and to put something into the cell
    have hend : ∀ (book : Notebook) (after : List Event) (c : Cell TestUnit Outcome),
        ((v.begun i unit).runUnit unit).2.book.Writes book after →
        closedIn after = [] ∧ registeredIn after = [] → ((∃ o, c = .done o) ∨ c = .abandoned) →
        ∃ es,
          v.Retires ({ ((v.begun i unit).runUnit unit).2 with book }.setCell i c) i unit es := by
      intro book after c hw hafter hc
      refine retires_ran hi hh hc ?_ rfl hlistener hw hafter
      show ((v.begun i unit).runUnit unit).2.cells.set i c = _
      rw [hcells]
      exact List.set_set ..
    dsimp only
    generalize (v.begun i unit).runUnit unit = ran at hend
    obtain ⟨p | result, x⟩ := ran
    · exact hend x.book [] .abandoned (Notebook.writes_refl _) ⟨rfl, rfl⟩ (.inr rfl)
    · have htold := x.book.writes_add (e := .notified (.finished ⟨unit.test, result⟩)) rfl rfl
      dsimp only [notify, Notebook.notify]
      cases x.listener.panic? (.finished ⟨unit.test, result⟩) with
      | some p => exact hend _ _ .abandoned htold ⟨rfl, rfl⟩ (.inr rfl)
      | none => exact hend _ _ (.done ⟨unit.test, result⟩) htold ⟨rfl, rfl⟩ (.inl ⟨_, rfl⟩)

theorem cancel_eq {h : Handle} (hu : v.cell h.cell = .suspended unit) :
    (v.cancel h).2 = v.withdrawn h unit := by
  rw [cancel, hu]
  dsimp only [notify, Notebook.notify]
  split
  · rename_i hn
    exact (congrArg Prod.snd hn).symm
  · rename_i hn
    exact (congrArg Prod.snd hn).symm

/-- **A unit that is cancelled comes to its end**, whether the listener panics at it.  The listener
is told once. -/
theorem cancel_retires {h : Handle} (hu : v.cell h.cell = .suspended unit) :
    ∃ es, v.Retires (v.cancel h).2 h.cell unit es ∧
      finishedIn es = [unfinished h.test .cancelled] := by
  obtain ⟨book, closing, hdrop, hw, hclosing⟩ := (v.setCell h.cell .cancelled).dropUnit_closes unit
  have htraced := Notebook.writes_nil (n := book)
    (m := book.trace .debug "cancelled test" [("test", h.test.display)]) rfl rfl
  have htold := (book.trace .debug "cancelled test" [("test", h.test.display)]).writes_add
    (e := .notified (.finished (unfinished h.test .cancelled))) rfl rfl
  rw [cancel_eq hu, withdrawn, hdrop]
  refine ⟨_, retires_unrun (lt_of_suspended hu) (.inl rfl) ?_ ?_ ?_
    (((Notebook.writes_refl _).trans hw).trans (htraced.trans htold))
      ⟨rfl, rfl⟩ hclosing ⟨rfl, rfl⟩, ?_⟩
  · rfl
  · rfl
  · rfl
  · rw [finishedIn_append, finishedIn_append, hclosing.finished]
    rfl

/-- **A unit that nobody can reach any more comes to its end.** -/
theorem discard_retires (hu : v.cell i = .suspended unit) :
    ∃ es, v.Retires ((v.dropUnit unit).setCell i .discarded) i unit es := by
  obtain ⟨book, closing, hdrop, hw, hclosing⟩ := v.dropUnit_closes unit
  rw [hdrop]
  refine ⟨_, retires_unrun (lt_of_suspended hu) (.inr (.inr rfl)) ?_ ?_ ?_
    (((Notebook.writes_refl _).trans hw).trans (Notebook.writes_refl _))
      ⟨rfl, rfl⟩ hclosing ⟨rfl, rfl⟩⟩
  · rfl
  · rfl
  · rfl

section Retires

variable {n₀ k₀ : Nat} {hole : Option Nat} (h : v.Retires w i unit es)
include h

theorem Retires.conserves : v.Conserves w es :=
  conserves_closed h.writes h.closed (perm_pending_emptied h.shelves)

theorem Retires.length : w.cells.length = v.cells.length := by
  obtain ⟨c, -, hc⟩ := h.cells
  rw [hc, List.length_set]

theorem Retires.cell_of_ne (hj : j ≠ i) : w.cell j = v.cell j := by
  obtain ⟨c, -, hc⟩ := h.cells
  exact cell_of_set_ne hc hj

theorem Retires.final : (w.cell i).isSuspended = false := by
  obtain ⟨c, hfinal, hc⟩ := h.cells
  by_cases hi : i < v.cells.length
  · rwa [cell_of_set hc hi]
  · rw [cell, hc, List.getElem?_eq_none (by rw [List.length_set]; omega)]
    rfl

/-- Nothing becomes an owner. -/
theorem Retires.owner (hj : (w.cell j).shelf? = some k) : (v.cell j).shelf? = some k := by
  by_cases hji : j = i
  · rw [hji, shelf?_of_final h.final] at hj
    cases hj
  · rwa [h.cell_of_ne hji] at hj

theorem Retires.shelf_of_ne (hk : unit.shelf? ≠ some k) : w.shelf k = v.shelf k := by
  have hs := h.shelves
  rw [emptied] at hs
  cases hu : unit.shelf? with
  | none =>
    rw [hu] at hs
    rw [shelf_congr hs]
  | some j =>
    rw [hu] at hs
    exact shelf_of_set_ne hs fun hkj => hk (hkj ▸ hu)

theorem Retires.shelf_self (hk : unit.shelf? = some k) : w.shelf k = [] := by
  have hs := h.shelves
  rw [emptied, hk] at hs
  exact shelf_of_set hs

theorem Retires.length_shelves : w.shelves.length = v.shelves.length := by
  rw [h.shelves, emptied]
  split
  · exact List.length_set ..
  · rfl

theorem Retires.held (hu : v.cell i = .suspended unit) (hv : v.Held n₀ k₀ hole) :
    w.Held n₀ k₀ hole where
  housed j k hj hk := by
    rw [h.length_shelves]
    exact hv.housed j k hj (h.owner hk)
  held k hk hne := by
    by_cases hown : unit.shelf? = some k
    · exact absurd (h.shelf_self hown) hne
    · rw [h.shelf_of_ne hown] at hne
      -- the owner of the shelf is not the unit that ended
      refine (hv.held k hk hne).imp_right fun ⟨j, hj, hjk⟩ => ⟨j, hj, ?_⟩
      rw [h.cell_of_ne fun hji => ?_]
      · exact hjk
      · rw [hji, hu] at hjk
        exact hown hjk

theorem Retires.unshared (hv : v.Unshared) : w.Unshared :=
  fun i j k hi hj => hv i j k (h.owner hi) (h.owner hj)

/-- A cell that was final stays so. -/
theorem Retires.settled (hj : (v.cell j).isSuspended = false) : (w.cell j).isSuspended = false := by
  by_cases hji : j = i
  · rw [hji]
    exact h.final
  · rwa [h.cell_of_ne hji]

end Retires

/-! ### Several tests that are cancelled -/

/-- A test that is cancelled is left alone, or comes to its end. -/
theorem cancel_cases (w : World) (h : Handle) : (∀ unit, w.cell h.cell ≠ .suspended unit) ∧
    w.cancel h = (.ok false, w) ∨ ∃ unit es, w.cell h.cell = .suspended unit ∧
      w.Retires (w.cancel h).2 h.cell unit es := by
  by_cases hu : ∃ unit, w.cell h.cell = .suspended unit
  · obtain ⟨unit, hu⟩ := hu
    obtain ⟨es, hr, -⟩ := cancel_retires hu
    exact .inr ⟨unit, es, hu, hr⟩
  · exact .inl ⟨fun unit h => hu ⟨unit, h⟩, cancel_of_ne fun unit h => hu ⟨unit, h⟩⟩

/-- What every unit keeps that comes to its end, is kept when several tests are cancelled. -/
theorem cancelAll_keep (Keep : World → Prop) (step : ∀ {v w i unit es}, v.cell i = .suspended unit →
    v.Retires w i unit es → Keep v → Keep w) (hs : List Handle) :
    ∀ w : World, Keep w → Keep (w.cancelAll hs).2 := by
  refine cancelAll_rel (R := fun v w => Keep v → Keep w) (fun _ => id) (fun h k => k ∘ h) ?_
  intro h _ w hw
  rcases w.cancel_cases h with ⟨-, hc⟩ | ⟨unit, es, hu, hr⟩
  · rwa [hc]
  · exact step hu hr hw

theorem cancelAll_ok {h : Handle} {rest : List Handle} {count : Nat}
    (hok : (w.cancelAll (h :: rest)).1 = .ok count) :
    (∃ n, ((w.cancel h).2.cancelAll rest).1 = .ok n) ∧
      (w.cancelAll (h :: rest)).2 = ((w.cancel h).2.cancelAll rest).2 := by
  rw [cancelAll] at hok ⊢
  generalize w.cancel h = c at hok ⊢
  obtain ⟨_ | b, v⟩ := c
  · cases hok
  · dsimp only at hok ⊢
    generalize v.cancelAll rest = d at hok ⊢
    obtain ⟨_ | n, z⟩ := d
    · cases hok
    · exact ⟨⟨n, rfl⟩, rfl⟩

/-- When several tests have been cancelled, the cell of each is final. -/
theorem cancelAll_settles (hs : List Handle) : ∀ {w : World} {count : Nat},
    (w.cancelAll hs).1 = .ok count →
    ∀ h ∈ hs, ((w.cancelAll hs).2.cell h.cell).isSuspended = false := by
  induction hs with
  | nil => intro w count _ h hh; cases hh
  | cons h rest ih =>
    intro w count hok k hk
    have hfirst : ((w.cancel h).2.cell h.cell).isSuspended = false := by
      rcases w.cancel_cases h with ⟨hne, hc⟩ | ⟨unit, es, hu, hr⟩
      · rw [hc]
        cases hcell : w.cell h.cell with
        | suspended unit => exact absurd hcell (hne unit)
        | _ => rfl
      · exact hr.final
    obtain ⟨⟨n, hn⟩, hrest⟩ := cancelAll_ok hok
    rw [hrest]
    rcases List.mem_cons.mp hk with rfl | hk
    · -- what is cancelled later changes nothing that is final
      exact cancelAll_keep (fun w => (w.cell k.cell).isSuspended = false)
        (fun _ hret hv => hret.settled hv) rest _ hfirst
    · exact ih hn k hk

end World

end TestTree
