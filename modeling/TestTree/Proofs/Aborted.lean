/-
Aborted discoveries, and what they leave behind.

* `World.Undone` : nothing is left to be done of a discovery, and whatever is cancelled had not begun;
* `RootContext.abort_undone` : an aborted discovery cancels what has not begun, and nothing else;
* `RootContext.aborted_leaves_nothing` : **an aborted discovery leaves nothing behind.**

## Design notes

`Spent` is about the two ends of a discovery.  Here the end of its last pass is looked at, too, when
nothing was cancelled yet.
-/
import TestTree.Proofs.Gathering

namespace TestTree

/-- Between `w` and `z` the handles `hs` were made and the events `es` written, and nothing is left
to be done of it.  In `v` no handle had been cancelled yet. -/
structure World.Undone (w v z : World) (hs : List Handle) (es : List Event) : Prop
    extends Spent w z hs es where
  /-- A result was there before anything was cancelled. -/
  known : ∀ h ∈ hs, ∀ o, z.cell h.cell = .done o → v.cell h.cell = .done o
  /-- What is cancelled had not begun. -/
  cancelled : ∀ h ∈ hs, z.cell h.cell = .cancelled → ∃ unit, v.cell h.cell = .suspended unit

namespace RootContext

variable {r : RootContext} {w₀ w : World} {e : PassEnd} {es : List Event}

/-- An aborted discovery cancels its tests and closes the shelf of its last pass. -/
theorem abort_undone (hc : w₀.Collects e.world e.hole e.search.tests es)
    (hk : w₀.shelves.length ≤ e.shelf) (hw : w₀.listener.Calm) (error : StructuralError) :
    ∃ gs, World.Undone w₀ e.world (r.abort e error).2 e.search.tests gs := by
  obtain ⟨z, gs, ha, hg, hcells⟩ := abort_gathers hc hk hw error
  rw [ha]
  refine ⟨gs, { hg.spent with known := fun h hh o hz => ?_, cancelled := fun h hh hz => ?_ }⟩
  · rcases hcells h hh with ⟨-, hcancelled⟩ | ⟨-, hsame⟩
    · rw [hcancelled] at hz
      cases hz
    · exact hsame.symm.trans hz
  · rcases hcells h hh with ⟨hsuspended, -⟩ | ⟨-, hsame⟩
    · cases hcell : e.world.cell h.cell with
      | suspended unit => exact ⟨unit, rfl⟩
      | _ =>
        rw [hcell] at hsuspended
        cases hsuspended
    · -- no pass makes a cell that is cancelled
      obtain ⟨s, hd⟩ := hc.dealt h hh
      rw [← hsame, hz] at hd
      cases hd

/-- **An aborted discovery leaves nothing behind.**  If a discovery ends with an error, its last
pass is the one that met the error, and has the handles of all passes.  They are all final, no body
was run and none can be run any more, what was registered was closed once, and the listener was told
once of every handle. -/
theorem aborted_leaves_nothing (hw : w.listener.Calm) {error : StructuralError}
    (h : (r.discover w).1 = .ok (.error error)) : ∃ n search v, r.Begins w n search v ∧
      fatal? (r.runPass search v) = some error ∧
      (∀ m t u, r.Begins w m t u →
        (r.runPass t u).search.tests <+: (r.runPass search v).search.tests) ∧
      ∃ es, World.Undone w (r.runPass search v).world (r.discover w).2
        (r.runPass search v).search.tests es := by
  obtain ⟨n, search, v, hb, hend⟩ := r.discover_ends w
  obtain ⟨hadds, hdirect, -⟩ := hb.adds
  obtain ⟨⟨_, hbegun⟩, es, hc⟩ := hb.collects hw
  obtain ⟨_, _, _, hy⟩ := r.runPass_yields search v hdirect
  have hk : w.shelves.length ≤ (r.runPass search v).shelf := hy.shelf ▸ hbegun.shelves
  have hcalm : (r.runPass search v).world.listener.Calm := hc.toAdds.listener ▸ hw
  have hfailed : ∀ {n failure search} {z : World}, z.listener.Calm →
      (r.finishFailed n failure search z).1 ≠ .ok (.error error) := by
    intro n failure search z hz
    rw [finishFailed, World.completed_calm (hz _)]
    rintro ⟨⟩
  refine ⟨n, search, v, hb, ?_⟩
  generalize r.discover w = a at h hend
  cases hend with
  | @aborted error' hf =>
    obtain ⟨count, z, hcancel⟩ := World.cancelAll_calm (r.runPass search v).search.tests hcalm
    have herror : error' = error := by
      rw [abort, hcancel] at h
      exact Except.error.inj (Except.ok.inj h)
    subst herror
    have hlast : fatal? (r.runPass search v) ≠ none := by
      rw [hf]
      rintro ⟨⟩
    exact ⟨hf, fun m t u hm => hb.tests_isPrefix hm (hb.le_of_fatal hlast hm),
      abort_undone hc hk hw _⟩
  | failedDirect hf hfailure hd =>
    obtain ⟨_, _, hr, -⟩ := (r.runPass search v).world.release_eq _
    exact absurd h (hfailed (by rw [hr]; exact hcalm))
  | failedSwept hf hfailure hd => exact absurd h (hfailed hcalm)
  | finished hf hfailure hl => cases h

end RootContext

/-- A root whose second pass meets a name for the second time.  By then its first test has been
queued. -/
def abortedRoot : RootContext :=
  ⟨0, "root", false, .site 0,
    .deferClose .done <| .test "a" (.site 1) .done false <| .pending "p" (.site 2) false <|
      .context "c" (.site 3) (.deferClose .done <| .test "x" (.site 4) .done false <|
        .test "x" (.site 5) .done false .done) false .done⟩

/-- Three handles are made and three callbacks closed. -/
theorem aborted_leaves_nothing_abortedRoot :
    ∃ v hs es, World.Undone (.fresh (.held 1) .silent .eager) v
        (abortedRoot.discover (.fresh (.held 1) .silent .eager)).2 hs es ∧
      hs.length = 3 ∧ closedIn es = [0, 2, 1] := by
  have herror : (abortedRoot.discover (.fresh (.held 1) .silent .eager)).1
      = .ok (.error (.duplicateName "x" "root > c")) := rfl
  obtain ⟨n, search, v, -, -, -, es, h⟩ := abortedRoot.aborted_leaves_nothing (fun _ => rfl) herror
  refine ⟨_, _, es, h, ?_, ?_⟩
  · have hlength :
        (abortedRoot.discover (.fresh (.held 1) .silent .eager)).2.cells.length = 3 := rfl
    have hall := h.length
    rw [hlength] at hall
    exact (hall.trans (Nat.zero_add _)).symm
  · have hclosings :
        (abortedRoot.discover (.fresh (.held 1) .silent .eager)).2.closings = [0, 2, 1] := rfl
    exact (World.closings_of_writes h.writes).symm.trans hclosings

end TestTree
