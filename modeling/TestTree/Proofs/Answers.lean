/-
Handles that answer.

* `World.Answers` : a handle has its outcome, or waits for one;
* `World.wait_answers` : whoever waits for such a handle gets an outcome of its test;
* `World.KeepsAnswers` : what answered still does, and outcomes stay as they are;
* `World.keepsAnswers_useRelation` : **whatever a pool or a waiting caller does keeps answers.**

## Design notes

A unit that a pass has made comes to an outcome of its own test whenever it is run, unless the
listener panics.  That is all that a caller relies on; it does not matter who runs the unit, or
when.
-/
import TestTree.Proofs.StartPolicies

namespace TestTree

namespace World

variable {u v w z : World} {h k : Handle} {hs : List Handle} {i : Nat}

/-! ### Handles that answer -/

/-- The handle has an outcome of its test, or it waits for one. -/
def Answers (w : World) (h : Handle) : Prop :=
  (∃ result, w.cell h.cell = .done ⟨h.test, result⟩) ∨ w.Waits h

theorem Answers.congr (ha : v.Answers h) (hc : w.cell h.cell = v.cell h.cell) : w.Answers h := by
  rw [Answers, Waits, hc]
  exact ha

/-- What a pass gave a handle is an outcome of its test, or a unit for it. -/
theorem answers_of_dealt {s : PassScope} (hd : h.Dealt s (w.cell h.cell)) : w.Answers h := by
  rw [Answers, Waits]
  generalize w.cell h.cell = c at hd
  cases hd with
  | given hr => exact .inl ⟨_, rfl⟩
  | replayed => exact .inr ⟨_, rfl, rfl, TestUnit.returns_replayed _ _⟩
  | direct body => exact .inr ⟨_, rfl, rfl, TestUnit.returns_direct _ _ _ _⟩

/-- Between `v` and `w` handles may have been made and units run, and nothing else has happened to
cells. -/
structure KeepsAnswers (v w : World) : Prop where
  listener : w.listener = v.listener
  done : ∀ i o, v.cell i = .done o → w.cell i = .done o
  answers : v.listener.Calm → ∀ h, v.Answers h → w.Answers h

theorem Answers.lt (ha : w.Answers h) : h.cell < w.cells.length := by
  rcases ha with ⟨result, hdone⟩ | ⟨u, hu, -⟩
  · exact lt_of_done hdone
  · exact lt_of_suspended hu

/-- New cells come behind the old ones. -/
theorem keepsAnswers_of_isPrefix (hc : v.cells <+: w.cells) (hl : w.listener = v.listener) :
    v.KeepsAnswers w where
  listener := hl
  done _ _ hi := (cell_of_isPrefix hc (lt_of_done hi)).trans hi
  answers _ _ ha := ha.congr (cell_of_isPrefix hc ha.lt)

theorem keepsAnswers_of_eq (hc : w.cells = v.cells) (hl : w.listener = v.listener) :
    v.KeepsAnswers w :=
  keepsAnswers_of_isPrefix (hc ▸ List.prefix_rfl) hl

theorem KeepsAnswers.trans (hv : u.KeepsAnswers v) (hw : v.KeepsAnswers w) : u.KeepsAnswers w where
  listener := hw.listener.trans hv.listener
  done i o hi := hw.done i o (hv.done i o hi)
  answers hu h ha := hw.answers (hv.listener ▸ hu) h (hv.answers hu h ha)

/-- Whoever waits for a handle that answers gets an outcome of its test. -/
theorem wait_answers (hw : w.listener.Calm) (ha : w.Answers h) : ∃ result v,
    w.wait h = (.ok (some ⟨h.test, result⟩), v) ∧ v.cell h.cell = .done ⟨h.test, result⟩ := by
  rcases ha with ⟨result, hdone⟩ | hwaits
  · refine ⟨result, w, ?_, hdone⟩
    rw [wait, runCell_of_ne fun u hu => by rw [hdone] at hu; cases hu]
    dsimp only
    rw [outcome?, hdone]
    rfl
  · obtain ⟨result, v, hv, hdone, -⟩ := wait_waits hw hwaits
    exact ⟨result, v, hv, hdone⟩

theorem listener_runCell (w : World) (i : Nat) : (w.runCell i).2.listener = w.listener := by
  by_cases hu : ∃ u, w.cell i = .suspended u
  · obtain ⟨u, hu⟩ := hu
    obtain ⟨c, book, shelves, hw, -⟩ := runCell_eq hu
    rw [hw]
  · rw [runCell_of_ne fun u k => hu ⟨u, k⟩]

theorem keepsAnswers_runCell (w : World) (i : Nat) : w.KeepsAnswers (w.runCell i).2 where
  listener := w.listener_runCell i
  done j o hj := by
    by_cases hji : j = i
    · subst hji
      rwa [runCell_of_ne fun u hu => by rw [hj] at hu; cases hu]
    · rwa [cell_runCell_of_ne hji]
  answers hw h ha := by
    by_cases hi : h.cell = i
    · subst hi
      obtain ⟨result, v, hv, hdone⟩ := wait_answers hw ha
      rw [← wait_eq, hv]
      exact .inl ⟨result, hdone⟩
    · exact ha.congr (cell_runCell_of_ne hi)

theorem keepsAnswers_release (w : World) (h : Handle) : w.KeepsAnswers (w.release h) := by
  obtain ⟨_, _, hw, -⟩ := release_eq w h
  rw [hw]
  exact keepsAnswers_of_eq rfl rfl

/-- A worker runs one unit at most. -/
theorem keepsAnswers_serveOne (w : World) : w.KeepsAnswers w.serveOne := by
  rw [serveOne, Pool.take?]
  cases w.pool.queue with
  | nil => exact keepsAnswers_of_eq rfl rfl
  | cons i rest =>
    let x : World := { w with pool := { w.pool with queue := rest, active := w.pool.active + 1 } }
    have hx : w.KeepsAnswers x := keepsAnswers_of_eq rfl rfl
    have hran := x.keepsAnswers_runCell i
    dsimp only
    rcases hrun : x.runCell i with ⟨panic, y⟩
    rw [hrun] at hran
    cases panic with
    | none => exact (hx.trans hran).trans (keepsAnswers_of_eq rfl rfl)
    | some p => exact (hx.trans hran).trans (keepsAnswers_of_eq rfl rfl)

/-- Workers and callers that start handles and wait for them run units only. -/
theorem keepsAnswers_useRelation : UseRelation (fun _ => True) (fun _ => False) KeepsAnswers where
  refl _ := keepsAnswers_of_eq rfl rfl
  trans := KeepsAnswers.trans
  serveOne := keepsAnswers_serveOne
  pool _ := keepsAnswers_of_eq rfl rfl
  start _ w := by
    obtain ⟨_, _, hw, -⟩ := start_eq w _
    rw [hw]
    exact keepsAnswers_of_eq rfl rfl
  run _ w := w.keepsAnswers_runCell _
  release hk := hk.elim
  cancel hk := hk.elim

end World

end TestTree
