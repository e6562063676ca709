/-
Which builders were entered, and how often.

* `Notebook.entrances` : the contexts whose builders were entered, in passes and in replays;
* `Pass.entrances_enter` : entering a context writes one of them down;
* `Pass.entrances_declareTest`, `entrances_leave`, … : nothing else that a visit does writes any;
* `RootContext.entrances_opened`, `entrances_behind` : nor does the end of a pass, and its beginning
  writes one for the root.
-/
import TestTree.Proofs.PassBound

namespace TestTree

/-- The builder that an event enters: the root and the path of the context. -/
def Event.entered? : Event → Option (Nat × NamePath)
  | .entered root path => some (root, path)
  | _ => none

namespace Notebook

/-- The builders that were entered, the latest first. -/
def entrances (n : Notebook) : List (Nat × NamePath) :=
  n.events.filterMap Event.entered?

@[simp] theorem entrances_add (n : Notebook) (e : Event) :
    (n.add e).entrances = e.entered?.toList ++ n.entrances := by
  cases h : e.entered? <;> simp [entrances, add, h]

/-- Entering a builder is a deed. -/
theorem entrances_eq_deeds (n : Notebook) : n.entrances = n.deeds.filterMap Event.entered? := by
  rw [deeds, List.filterMap_filter, entrances]
  congr 1
  funext e
  cases e with
  | entered root path => rfl
  | _ => simp [Event.entered?]

theorem entrances_of_deeds {n m : Notebook} (h : m.deeds = n.deeds) : m.entrances = n.entrances := by
  rw [entrances_eq_deeds, h, ← entrances_eq_deeds]

theorem entrances_of_acts {n m : Notebook} (h : m.acts = n.acts) : m.entrances = n.entrances :=
  entrances_of_deeds (deeds_of_acts h)

theorem entrances_sweep (n : Notebook) (rs : List (Registration Closure)) :
    (n.sweep rs).2.entrances = n.entrances :=
  entrances_of_deeds (deeds_sweep n rs)

end Notebook

/-! ### Steps of a visit -/

namespace World

@[simp] theorem entrances_release (w : World) (h : Handle) :
    (w.release h).book.entrances = w.book.entrances := by
  obtain ⟨_, _, hw, -, -, -, hd⟩ := release_eq w h
  rw [hw]
  exact Notebook.entrances_of_deeds hd

@[simp] theorem entrances_schedule (w : World) (u : TestUnit) :
    (w.schedule u).2.book.entrances = w.book.entrances := by
  rw [schedule, entrances_release]
  exact Notebook.entrances_add _ _

theorem entrances_completed (w : World) (o : Outcome) :
    (w.completed o).2.book.entrances = w.book.entrances := by
  rw [completed, notify, Notebook.notify]
  cases w.listener.panic? (.finished o) with
  | some p => exact Notebook.entrances_add _ _
  | none => exact Notebook.entrances_add _ _

theorem entrances_closeWarning (w : World) (shelf : Nat) (message root : String) :
    (w.closeWarning shelf message root).book.entrances = w.book.entrances := by
  obtain ⟨book, hw, hr⟩ := w.closeWarning_eq shelf message root
  rw [hw]
  exact (Notebook.entrances_of_acts hr.acts).trans (w.book.entrances_sweep _)

end World

namespace Pass

variable {s : PassScope} {x y : Pass}

theorem entrances_perform (x : Pass) (c : Scope) (b : Basic) :
    (x.perform c b).state.world.book.entrances = x.world.book.entrances := by
  rw [state_perform]
  exact Notebook.entrances_of_deeds (Notebook.deeds_perform _ _ _ _)

theorem entrances_complete (x : Pass) (o : Outcome) :
    (x.complete o).state.world.book.entrances = x.world.book.entrances := by
  have hw := x.world.entrances_completed o
  rw [complete]
  generalize x.world.completed o = c at hw
  rcases c with ⟨p | h, w⟩
  · exact hw
  · exact hw

theorem entrances_declareTest (x : Pass) (name : String) (site : Location) (body : Body) :
    (x.declareTest s name site body).state.world.book.entrances = x.world.book.entrances := by
  by_cases hname : name ∈ x.visit.names
  · rw [declareTest_taken hname]
    rfl
  by_cases hp : x.isProcessed name = true
  · rw [declareTest_processed hname hp]
    rfl
  by_cases hran : x.visit.ran = true
  · rw [declareTest_replayed hname hp hran]
    exact x.world.entrances_schedule _
  · rw [declareTest_direct hname hp hran]
    exact Notebook.entrances_add _ _

theorem entrances_declarePending (x : Pass) (name : String) (site : Location) :
    (x.declarePending name site).state.world.book.entrances = x.world.book.entrances := by
  by_cases hname : name ∈ x.visit.names
  · rw [declarePending_taken hname]
    rfl
  by_cases hp : x.isProcessed name = true
  · rw [declarePending_processed hname hp]
    rfl
  · rw [declarePending_new hname hp]
    exact entrances_complete _ _

theorem world_declareAfterSuite (x : Pass) (callback : Callback) :
    (x.declareAfterSuite s callback).world = x.world := by
  rw [declareAfterSuite]
  split <;> rfl

/-- **Entering a context writes it down.** -/
theorem entrances_enter {name : String} {site : Location} (hy : x.enter? s name site = .inr y) :
    y.world.book.entrances
      = (s.root.index, x.visit.context.path ++ [name]) :: x.world.book.entrances := by
  obtain ⟨hname, hp, hran⟩ := of_entered hy
  have hpath := (entered_eq hy).1
  rw [enter?_new hname hp hran] at hy
  cases hy
  rw [Notebook.entrances_add]
  exact congrArg (fun path => (s.root.index, path) :: x.world.book.entrances) hpath

theorem entrances_fails (x : Pass) (name : String) (site : Location) (failure : Failure) :
    (x.fails name site failure).state.world.book.entrances = x.world.book.entrances := by
  have hc := x.entrances_complete ⟨⟨x.visit.context, name, site⟩, .failed failure⟩
  rw [fails]
  generalize x.complete ⟨⟨x.visit.context, name, site⟩, .failed failure⟩ = c at hc
  rcases c with ⟨_ | e | p, z⟩
  · exact hc
  · exact hc
  · exact hc

theorem entrances_leaveFailed (x : Pass) (name : String) (site : Location) (mark : Nat)
    (failure : Failure) : (leaveFailed name site mark failure x).state.world.book.entrances
      = x.world.book.entrances := by
  by_cases hd : x.search.direct.isSome = true
  · rw [leaveFailed_owned hd]
    exact entrances_fails _ _ _ _
  · rw [leaveFailed_swept hd, entrances_fails]
    exact x.world.book.entrances_sweep _

/-- Leaving a context writes none down. -/
theorem entrances_leave (parent : Visit) (name : String) (site : Location) (mark : Nat)
    (r : Ran BuildError Pass) : (leave parent name site mark r).state.world.book.entrances
      = r.state.world.book.entrances := by
  rw [leave]
  rcases r.ending with _ | (e | c) | p
  · exact congrArg (·.book.entrances) (world_leaveFinished _ _ _)
  · rfl
  · exact entrances_leaveFailed _ _ _ _ _
  · exact entrances_leaveFailed _ _ _ _ _

end Pass

/-! ### The beginning and the end of a pass -/

namespace RootContext

variable (r : RootContext)

/-- A pass enters the root. -/
theorem entrances_opened (search : Search) (w : World) :
    (r.opened search w).world.book.entrances = (r.index, r.context.path) :: w.book.entrances :=
  Notebook.entrances_add w.book (.entered r.index r.context.path)

theorem entrances_behind (e : PassEnd) :
    (r.behind e).book.entrances = e.world.book.entrances := by
  rw [behind]
  split
  · exact World.entrances_release _ _
  · exact World.entrances_closeWarning _ _ _ _

end RootContext

end TestTree
