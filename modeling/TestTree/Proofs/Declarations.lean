/-
What declarations do, case by case.

* `Pass.claim_new`, `Pass.claim_taken` : a name is taken, or was taken before;
* `Pass.declareTest_processed`, `declareTest_replayed`, `declareTest_direct` : the three things
  that the declaration of a test can do under a new name; likewise for pending tests and for
  contexts.
-/
import TestTree.Discovery.Passes

namespace TestTree

/-- Looking a context up changes nothing but which contexts were entered. -/
theorem Search.intern_entered (s : Search) (place : Place) (site : Location) :
    ∃ entered, (s.intern place site).2 = { s with entered } := by
  rw [intern]
  split
  · exact ⟨_, rfl⟩
  · exact ⟨_, rfl⟩

/-- The pass without what belongs to the context that is visited. -/
def Pass.within (p : Pass) (v : Visit) : Pass :=
  { p with visit := v }

/-- The pass with a structural error, unless there is one already. -/
def Pass.faulty (p : Pass) (e : StructuralError) : Pass :=
  { p with search := { p.search with fatal := some (p.search.fatal.getD e) } }

namespace Pass

variable {s : PassScope} {x : Pass}

theorem claim_new {name : String} (h : name ∉ x.visit.names) :
    x.claim name = ⟨.finished, x.within (x.parentVisit name)⟩ := by
  simp [claim, h, within, parentVisit]

theorem isProcessed_iff {name : String} :
    x.isProcessed name = true ↔ x.visit.context.path ++ [name] ∈ x.search.processed := by
  simp [isProcessed, place, Place.path]

theorem claim_taken {name : String} (h : name ∈ x.visit.names) :
    x.claim name = ⟨.failed (.structural (.duplicateName name x.visit.context.display)),
      x.faulty (.duplicateName name x.visit.context.display)⟩ := by
  rw [claim, if_pos (List.contains_iff_mem.mpr h)]
  rfl

theorem declareTest_taken {name : String} {site : Location} {body : Body}
    (h : name ∈ x.visit.names) : x.declareTest s name site body
      = ⟨.failed (.structural (.duplicateName name x.visit.context.display)),
        x.faulty (.duplicateName name x.visit.context.display)⟩ := by
  rw [declareTest, claim_taken h, Ran.andThen_failed]

theorem declarePending_taken {name : String} {site : Location} (h : name ∈ x.visit.names) :
    x.declarePending name site
      = ⟨.failed (.structural (.duplicateName name x.visit.context.display)),
        x.faulty (.duplicateName name x.visit.context.display)⟩ := by
  rw [declarePending, claim_taken h, Ran.andThen_failed]

theorem enter?_taken {name : String} {site : Location} (h : name ∈ x.visit.names) :
    x.enter? s name site
      = .inl ⟨.failed (.structural (.duplicateName name x.visit.context.display)),
        x.faulty (.duplicateName name x.visit.context.display)⟩ := by
  rw [enter?, claim_taken h]

section Declare

variable {name : String} {site : Location} (hname : name ∉ x.visit.names)
include hname

theorem declareTest_processed {body : Body} (hp : x.isProcessed name = true) :
    x.declareTest s name site body = ⟨.finished, x.within (x.parentVisit name)⟩ := by
  rw [declareTest, claim_new hname, Ran.andThen_finished]
  exact if_pos hp

theorem declareTest_replayed {body : Body} (hp : ¬ x.isProcessed name = true)
    (hran : x.visit.ran = true) :
    x.declareTest s name site body = ⟨.finished,
      { (x.within (x.parentVisit name)).process name with
        world := (x.world.schedule (.replayed ⟨x.visit.context, name, site⟩ s.root)).2 }.addTest
          (x.world.schedule (.replayed ⟨x.visit.context, name, site⟩ s.root)).1⟩ := by
  rw [declareTest, claim_new hname, Ran.andThen_finished]
  exact (if_neg hp).trans (if_pos hran)

theorem declareTest_direct {body : Body} (hp : ¬ x.isProcessed name = true)
    (hran : ¬ x.visit.ran = true) :
    let test : Description := ⟨x.visit.context, name, site⟩
    let scheduled := x.world.scheduleSuspended (.direct test body s.scope s.shelf)
    let y := (x.within { x.parentVisit name with ran := true }).process name
    x.declareTest s name site body = ⟨.finished,
      { y with world := scheduled.2, search := { y.search with direct := some scheduled.1 } }.addTest
        scheduled.1⟩ := by
  intro test scheduled y
  rw [declareTest, claim_new hname, Ran.andThen_finished]
  exact (if_neg hp).trans (if_neg hran)

theorem declarePending_processed (hp : x.isProcessed name = true) :
    x.declarePending name site = ⟨.finished, x.within (x.parentVisit name)⟩ := by
  rw [declarePending, claim_new hname, Ran.andThen_finished]
  exact if_pos hp

theorem declarePending_new (hp : ¬ x.isProcessed name = true) :
    x.declarePending name site = ((x.within (x.parentVisit name)).process name).complete
      ⟨⟨x.visit.context, name, site⟩, .pending⟩ := by
  rw [declarePending, claim_new hname, Ran.andThen_finished]
  exact if_neg hp

theorem enter?_processed (hp : x.isProcessed name = true) :
    x.enter? s name site = .inl ⟨.finished, x.within (x.parentVisit name)⟩ := by
  rw [enter?, claim_new hname]
  exact if_pos hp

theorem enter?_skipped (hp : ¬ x.isProcessed name = true) (hran : x.visit.ran = true) :
    x.enter? s name site
      = .inl ⟨.finished, x.within { x.parentVisit name with left := true }⟩ := by
  rw [enter?, claim_new hname]
  exact (if_neg hp).trans (if_pos hran)

theorem enter?_new (hp : ¬ x.isProcessed name = true) (hran : ¬ x.visit.ran = true) :
    let node := (x.search.intern (x.place name) site).1
    let search := (x.search.intern (x.place name) site).2
    let book := x.world.book.add (.entered s.root.index node.path)
    x.enter? s name site = .inr { x with
      visit := search.visit node, search, world := { x.world with book } } := by
  intro node search book
  rw [enter?, claim_new hname]
  exact (if_neg hp).trans (if_neg hran)

end Declare

/-- A context is entered only under a new name, in a pass that has met no test. -/
theorem of_entered {name : String} {site : Location} {y : Pass} (h : x.enter? s name site = .inr y) :
    name ∉ x.visit.names ∧ ¬ x.isProcessed name = true ∧ ¬ x.visit.ran = true := by
  by_cases hname : name ∈ x.visit.names
  · rw [enter?_taken hname] at h
    cases h
  by_cases hp : x.isProcessed name = true
  · rw [enter?_processed hname hp] at h
    cases h
  by_cases hran : x.visit.ran = true
  · rw [enter?_skipped hname hp hran] at h
    cases h
  · exact ⟨hname, hp, hran⟩

section LeaveFinished

variable (y : Pass) (name : String) (v : Visit)

theorem visit_leaveFinished : (y.leaveFinished name v).visit
    = { y.visit with ran := y.visit.ran || v.ran, left := y.visit.left || v.left } := by
  rw [leaveFinished]
  split <;> rfl

theorem found_leaveFinished : (y.leaveFinished name v).search.found
    = y.search.found ++ if v.left then [] else [v.context] := by
  rw [leaveFinished]
  split
  · exact (List.append_nil _).symm
  · rfl

theorem processed_leaveFinished : (y.leaveFinished name v).search.processed
    = y.search.processed ++ if v.left then [] else [y.visit.context.path ++ [name]] := by
  rw [leaveFinished]
  split
  · exact (List.append_nil _).symm
  · rfl

theorem entered_leaveFinished : (y.leaveFinished name v).search.entered = y.search.entered := by
  rw [leaveFinished]
  split <;> rfl

theorem tests_leaveFinished : (y.leaveFinished name v).search.tests = y.search.tests := by
  rw [leaveFinished]
  split <;> rfl

@[simp] theorem world_leaveFinished : (y.leaveFinished name v).world = y.world := by
  rw [leaveFinished]
  split <;> rfl

theorem fatal_leaveFinished : (y.leaveFinished name v).search.fatal = y.search.fatal := by
  rw [leaveFinished]
  split <;> rfl

end LeaveFinished

/-- The context of a name is a failed test from now on. -/
def fails (p : Pass) (name : String) (site : Location) (failure : Failure) : Ran BuildError Pass :=
  (p.complete ⟨⟨p.visit.context, name, site⟩, .failed failure⟩).andThen fun p =>
    ⟨.finished, { p.process name with visit := { (p.process name).visit with ran := true } }⟩

/-- The pass when what a sub-context registered is closed. -/
def swept (p : Pass) (mark : Nat) : Pass :=
  p.withCloset ⟨p.shelf.upTo mark, (p.world.book.sweep (p.shelf.since mark)).2⟩

theorem leaveFailed_owned {name : String} {site : Location} {mark : Nat} {failure : Failure}
    (h : x.search.direct.isSome = true) : leaveFailed name site mark failure x
      = x.fails name site (failure.withTeardown []) := by
  rw [leaveFailed, if_pos h]
  rfl

theorem leaveFailed_swept {name : String} {site : Location} {mark : Nat} {failure : Failure}
    (h : ¬ x.search.direct.isSome = true) : leaveFailed name site mark failure x
      = (x.swept mark).fails name site
        (failure.withTeardown (x.world.book.sweep (x.shelf.since mark)).1) := by
  rw [leaveFailed, if_neg h]
  rfl

end Pass

end TestTree
