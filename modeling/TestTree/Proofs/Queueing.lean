/-
What a discovery queues.

* `World.Queues` : what is released is queued: the policy is eager and the pool accepts it;
* `Notebook.beginnings` : the starts of tests that were told, and the bodies that were run;
* `World.Onward` : cells and entries of the queue are added, and nothing begins; if what is released
  is not queued, then the pool stays as it is;
* `Pass.Met`, `Pass.met_visitProperty` : the direct test of a pass counts as met behind it, so that no
  context is entered any more;
* `World.Placed` : a handle has its outcome, or it waits, in the queue if handles are queued;
* `Builder.visit_prompt` : **a visit that discards no structural error places every handle**, but for
  the direct test of its pass;
* `RootContext.discover_places` : **a discovery places every handle**, however its passes end.

## Design notes

The direct test of a pass is released when the pass ends, and a pass knows one direct test only.  If
an error is discarded, then a pass can go on and meet another one, and the first is forgotten.
-/
import TestTree.Proofs.Entrances
import TestTree.Proofs.Identity

namespace TestTree

/-! ### Beginnings -/

/-- The listener is told that a test has started, or a body is run. -/
def Event.isBeginning : Event → Bool
  | .notified (.started _) => true
  | .ran .. => true
  | _ => false

namespace Notebook

/-- The starts of tests that the listener was told of, and the bodies that were run, the latest
first. -/
def beginnings (n : Notebook) : List Event :=
  n.events.filter Event.isBeginning

theorem beginnings_eq_deeds (n : Notebook) : n.beginnings = n.deeds.filter Event.isBeginning := by
  rw [beginnings, deeds, List.filter_filter]
  congr 1
  funext e
  cases e with
  | notified n => cases n <;> rfl
  | _ => rfl

theorem beginnings_of_deeds {n m : Notebook} (h : m.deeds = n.deeds) :
    m.beginnings = n.beginnings := by
  rw [beginnings_eq_deeds, h, ← beginnings_eq_deeds]

theorem beginnings_add (n : Notebook) {e : Event} (h : e.isBeginning = false) :
    (n.add e).beginnings = n.beginnings :=
  List.filter_cons_of_neg (by rw [h]; exact Bool.false_ne_true)

end Notebook

/-! ### Worlds that go on -/

namespace World

/-- What is released is queued. -/
def Queues (w : World) : Prop :=
  w.policy = .eager ∧ w.pool.shutDown = false

/-- The world `w` comes from `v` by making handles and releasing some of them. -/
structure Onward (v w : World) : Prop where
  cells : v.cells <+: w.cells
  listener : w.listener = v.listener
  policy : w.policy = v.policy
  shutDown : w.pool.shutDown = v.pool.shutDown
  queue : v.pool.queue <+: w.pool.queue
  pool : ¬ v.Queues → w.pool = v.pool
  beginnings : w.book.beginnings = v.book.beginnings

variable {u v w : World}

theorem not_queues_of_lazy (hw : w.policy = .lazy) : ¬ w.Queues := fun hq => by
  rw [hq.1] at hw
  cases hw

theorem not_queues_of_shutDown (hw : w.pool.shutDown = true) : ¬ w.Queues := fun hq => by
  rw [hq.2] at hw
  cases hw

theorem onward_refl (w : World) : w.Onward w :=
  ⟨List.prefix_rfl, rfl, rfl, rfl, List.prefix_rfl, fun _ => rfl, rfl⟩

theorem Onward.queues (h : v.Onward w) : w.Queues ↔ v.Queues := by
  rw [Queues, h.policy, h.shutDown, Queues]

theorem Onward.trans (h : u.Onward v) (k : v.Onward w) : u.Onward w where
  cells := h.cells.trans k.cells
  listener := k.listener.trans h.listener
  policy := k.policy.trans h.policy
  shutDown := k.shutDown.trans h.shutDown
  queue := h.queue.trans k.queue
  pool hu := (k.pool (mt h.queues.mp hu)).trans (h.pool hu)
  beginnings := k.beginnings.trans h.beginnings

/-- Only the notebook and the shelves change, and nothing begins. -/
theorem onward_book {n : Notebook} {shelves : List (Shelf Closure)}
    (hn : n.beginnings = w.book.beginnings) : w.Onward { w with book := n, shelves } :=
  ⟨List.prefix_rfl, rfl, rfl, rfl, List.prefix_rfl, fun _ => rfl, hn⟩

theorem onward_scheduleSuspended (w : World) (u : TestUnit) : w.Onward (w.scheduleSuspended u).2 :=
  ⟨⟨[.suspended u], rfl⟩, rfl, rfl, rfl, List.prefix_rfl, fun _ => rfl,
    w.book.beginnings_add (e := .traced _) rfl⟩

theorem onward_release (w : World) (h : Handle) : w.Onward (w.release h) := by
  rw [release]
  split
  · rename_i heager
    rw [start]
    split
    · rw [Pool.submit?]
      cases hs : w.pool.shutDown with
      | true => exact onward_book (w.book.beginnings_add (e := .traced _) rfl)
      | false =>
        have hq : w.Queues := ⟨heager, hs⟩
        exact ⟨List.prefix_rfl, rfl, rfl, hs.symm, List.prefix_append _ _, fun hn => absurd hq hn, rfl⟩
    · exact onward_refl w
  · exact onward_refl w

theorem onward_schedule (w : World) (u : TestUnit) : w.Onward (w.schedule u).2 :=
  (onward_scheduleSuspended w u).trans (onward_release _ _)

theorem onward_completed (w : World) (o : Outcome) : w.Onward (w.completed o).2 := by
  have hbook : (w.book.add (.notified (.finished o))).beginnings = w.book.beginnings :=
    w.book.beginnings_add rfl
  rw [completed, notify, Notebook.notify]
  cases w.listener.panic? (.finished o) with
  | some p => exact onward_book hbook
  | none => exact ⟨⟨[.done o], rfl⟩, rfl, rfl, rfl, List.prefix_rfl, fun _ => rfl, hbook⟩

theorem onward_closeShelf (w : World) (i : Nat) : w.Onward (w.closeShelf i).2 :=
  onward_book (Notebook.beginnings_of_deeds (Notebook.deeds_sweep _ _))

theorem onward_closeWarning (w : World) (i : Nat) (message root : String) :
    w.Onward (w.closeWarning i message root) := by
  obtain ⟨book, hclose, hrests⟩ := w.closeWarning_eq i message root
  have hbook : (w.closeShelf i).2.Onward { (w.closeShelf i).2 with book } :=
    onward_book (Notebook.beginnings_of_deeds (Notebook.deeds_of_acts hrests.acts))
  rw [hclose]
  exact (w.onward_closeShelf i).trans hbook

end World

/-! ### Handles that are placed -/

/-- A run of the unit ends with a result, in whatever world it begins. -/
def TestUnit.Returns (u : TestUnit) : Prop :=
  ∀ w : World, ∃ r, (w.runUnit u).1 = .ok r

namespace World

variable {v w : World} {h : Handle} {q : Prop}

/-- A unit for the test of the handle is in its cell, and will not panic. -/
def Waits (w : World) (h : Handle) : Prop :=
  ∃ u, w.cell h.cell = .suspended u ∧ u.test = h.test ∧ u.Returns

/-- The handle has its outcome, or it waits; then it is queued, if `q` says so. -/
def Placed (q : Prop) (w : World) (h : Handle) : Prop :=
  (∃ o, w.cell h.cell = .done o) ∨ w.Waits h ∧ (q → h.cell ∈ w.pool.queue)

theorem lt_of_done {i : Nat} {o : Outcome} (h : w.cell i = .done o) : i < w.cells.length := by
  by_contra hi
  rw [cell, List.getElem?_eq_none (Nat.le_of_not_lt hi)] at h
  cases h

theorem Waits.onward (hw : v.Waits h) (hv : v.Onward w) : w.Waits h := by
  obtain ⟨u, hu, hrest⟩ := hw
  exact ⟨u, (cell_of_isPrefix hv.cells (lt_of_suspended hu)).trans hu, hrest⟩

theorem Placed.onward (hw : v.Placed q h) (hv : v.Onward w) : w.Placed q h := by
  rcases hw with ⟨o, ho⟩ | ⟨hwaits, hq⟩
  · exact .inl ⟨o, (cell_of_isPrefix hv.cells (lt_of_done ho)).trans ho⟩
  · exact .inr ⟨hwaits.onward hv, fun k => hv.queue.subset (hq k)⟩

/-- What is released in a world that queues is queued. -/
theorem placed_release (hq : q → w.Queues) (hw : w.Waits h) : (w.release h).Placed q h := by
  refine .inr ⟨hw.onward (w.onward_release h), fun k => ?_⟩
  obtain ⟨heager, hs⟩ := hq k
  obtain ⟨u, hu, -⟩ := hw
  have hsuspended : (w.cell h.cell).isSuspended = true := by
    rw [hu]
    rfl
  rw [release, heager]
  dsimp only
  rw [start, if_pos hsuspended, Pool.submit?, hs]
  exact List.mem_append_right _ List.mem_cons_self

theorem waits_scheduleSuspended (w : World) {u : TestUnit} (hu : u.Returns) :
    (w.scheduleSuspended u).2.Waits (w.scheduleSuspended u).1 := by
  refine ⟨u, ?_, rfl, hu⟩
  show ((w.cells ++ [.suspended u])[w.cells.length]?).getD .discarded = .suspended u
  rw [List.getElem?_concat_length]
  rfl

theorem placed_schedule (hq : q → w.Queues) {u : TestUnit} (hu : u.Returns) :
    (w.schedule u).2.Placed q (w.schedule u).1 :=
  placed_release (fun k => (w.onward_scheduleSuspended u).queues.mpr (hq k))
    (w.waits_scheduleSuspended hu)

theorem placed_completed {o : Outcome} (hw : w.completed o = (.ok h, v)) : v.Placed q h := by
  obtain ⟨rfl, hcells⟩ := completed_ok hw
  refine .inl ⟨o, ?_⟩
  rw [cell, hcells, List.getElem?_concat_length]
  rfl

end World

theorem TestUnit.returns_direct (d : Description) (body : Body) (scope : Scope) (shelf : Nat) :
    (direct d body scope shelf).Returns :=
  fun _ => ⟨_, rfl⟩

theorem TestUnit.returns_replayed (d : Description) (r : RootContext) : (replayed d r).Returns :=
  fun _ => ⟨_, rfl⟩

/-! ### Visits -/

namespace Pass

variable {s : PassScope} {x y : Pass} {r : Ran BuildError Pass} {q : Prop}

/-- The world goes on between two moments of a visit. -/
def Onward (x y : Pass) : Prop :=
  x.world.Onward y.world

theorem onward_of_eq (h : y.world = x.world) : x.Onward y := by
  rw [Onward, h]
  exact World.onward_refl _

theorem onward_book {n : Notebook} (hy : y.world = { x.world with book := n })
    (hn : n.beginnings = x.world.book.beginnings) : x.Onward y := by
  rw [Onward, hy]
  exact World.onward_book hn

theorem onward_trans {z : Pass} (h : x.Onward y) (k : y.Onward z) : x.Onward z :=
  World.Onward.trans h k

theorem onward_claim (x : Pass) (name : String) : x.Onward (x.claim name).state := by
  rw [claim]
  split
  · exact onward_of_eq rfl
  · exact onward_of_eq rfl

theorem onward_complete (x : Pass) (o : Outcome) : x.Onward (x.complete o).state := by
  have hw := x.world.onward_completed o
  rw [complete]
  split
  · rename_i hc
    rwa [hc] at hw
  · rename_i hc
    rwa [hc] at hw

theorem onward_declareTest (x : Pass) (name : String) (site : Location) (body : Body) :
    x.Onward (x.declareTest s name site body).state := by
  refine Ran.andThen_rel Onward onward_trans (onward_claim x name) fun y => ?_
  split
  · exact onward_of_eq rfl
  · dsimp only
    split
    · exact y.world.onward_schedule _
    · exact y.world.onward_scheduleSuspended _

theorem onward_declarePending (x : Pass) (name : String) (site : Location) :
    x.Onward (x.declarePending name site).state := by
  refine Ran.andThen_rel Onward onward_trans (onward_claim x name) fun y => ?_
  split
  · exact onward_of_eq rfl
  · exact onward_complete (y.process name) _

theorem onward_fails (x : Pass) (name : String) (site : Location) (failure : Failure) :
    x.Onward (x.fails name site failure).state :=
  Ran.andThen_rel Onward onward_trans (onward_complete x _) fun _ => onward_of_eq rfl

theorem onward_leaveFailed (x : Pass) (name : String) (site : Location) (mark : Nat)
    (failure : Failure) : x.Onward (leaveFailed name site mark failure x).state := by
  by_cases hd : x.search.direct.isSome = true
  · rw [leaveFailed_owned hd]
    exact onward_fails _ _ _ _
  · rw [leaveFailed_swept hd]
    have hswept : x.Onward (x.swept mark) :=
      onward_book rfl (Notebook.beginnings_of_deeds (Notebook.deeds_sweep _ _))
    exact onward_trans hswept (onward_fails _ _ _ _)

theorem onward_visitRelation (s : PassScope) : VisitRelation s Onward where
  refl x := World.onward_refl x.world
  trans := onward_trans
  visit x v := onward_of_eq rfl
  perform x b := by
    rw [state_perform]
    exact onward_book rfl (Notebook.beginnings_of_deeds (Notebook.deeds_perform _ _ _ b))
  register x label res close :=
    onward_book rfl (Notebook.beginnings_add (e := .registered _) _ rfl)
  claim := onward_claim
  declareTest := onward_declareTest
  declarePending := onward_declarePending
  declareAfterSuite x callback := onward_of_eq (x.world_declareAfterSuite callback)
  say x line := onward_book rfl (Notebook.beginnings_add (e := .said _ _) _ rfl)
  enter {x name site y} h := by
    obtain ⟨hname, hp, hran⟩ := of_entered h
    rw [enter?_new hname hp hran] at h
    cases h
    exact onward_book rfl (Notebook.beginnings_add (e := .entered _ _) _ rfl)
  leaveFinished x name v := onward_of_eq (world_leaveFinished x name v)
  leaveFailed := onward_leaveFailed

/-- If a part of a visit finished, the direct test of the pass counts as met behind it. -/
def Met (r : Ran BuildError Pass) : Prop :=
  r.ending = .finished → r.state.search.direct.isSome = true → r.state.visit.ran = true

theorem Met.keep (h : Met ⟨.finished, x⟩) (hd : r.state.search.direct = x.search.direct)
    (hr : r.state.visit.ran = x.visit.ran) : Met r := by
  intro _ hs
  rw [hd] at hs
  rw [hr]
  exact h rfl hs

theorem direct_complete (x : Pass) (o : Outcome) :
    (x.complete o).state.search.direct = x.search.direct := by
  rw [complete]
  split <;> rfl

theorem direct_leaveFinished (x : Pass) (name : String) (v : Visit) :
    (x.leaveFinished name v).search.direct = x.search.direct := by
  rw [leaveFinished]
  split <;> rfl

theorem met_declareTest (h : Met ⟨.finished, x⟩) (name : String) (site : Location) (body : Body) :
    Met (x.declareTest s name site body) := by
  by_cases hname : name ∈ x.visit.names
  · rw [declareTest_taken hname]
    exact h.keep rfl rfl
  by_cases hp : x.isProcessed name = true
  · rw [declareTest_processed hname hp]
    exact h.keep rfl rfl
  by_cases hran : x.visit.ran = true
  · rw [declareTest_replayed hname hp hran]
    exact h.keep rfl rfl
  · rw [declareTest_direct hname hp hran]
    exact fun _ _ => rfl

theorem met_declarePending (h : Met ⟨.finished, x⟩) (name : String) (site : Location) :
    Met (x.declarePending name site) := by
  by_cases hname : name ∈ x.visit.names
  · rw [declarePending_taken hname]
    exact h.keep rfl rfl
  by_cases hp : x.isProcessed name = true
  · rw [declarePending_processed hname hp]
    exact h.keep rfl rfl
  · rw [declarePending_new hname hp]
    obtain ⟨-, -, hvisit, -⟩ := complete_keeps ((x.within (x.parentVisit name)).process name)
      ⟨⟨x.visit.context, name, site⟩, .pending⟩
    have hran := congrArg Visit.ran hvisit
    exact h.keep (direct_complete _ _) hran

/-- A direct test that was met inside a context counts behind it. -/
theorem met_leave (h : Met r) (parent : Visit) (name : String) (site : Location) (mark : Nat) :
    Met (leave parent name site mark r) := by
  have hfailed : ∀ failure, Met (leaveFailed name site mark failure (r.state.within parent)) :=
    fun failure he _ => (leaveFailed_keeps (r.state.within parent) name site mark failure).2.2.1 he
  rw [leave]
  rcases hr : r.ending with _ | (e | c) | p
  · intro _ hs
    have hdirect := direct_leaveFinished (r.state.within parent) name r.state.visit
    have hran : r.state.visit.ran = true := h hr (hdirect ▸ hs)
    show ((r.state.within parent).leaveFinished name r.state.visit).visit.ran = true
    rw [visit_leaveFinished, hran, Bool.or_true]
  · rintro ⟨⟩
  · exact hfailed _
  · exact hfailed _

/-- A context is entered only if no direct test was met before it. -/
theorem direct_entered {name : String} {site : Location} (hy : x.enter? s name site = .inr y)
    (h : Met ⟨.finished, x⟩) : x.search.direct = none ∧ y.search.direct = none := by
  obtain ⟨hname, hp, hran⟩ := of_entered hy
  have hx : x.search.direct = none := by
    cases hd : x.search.direct with
    | none => rfl
    | some k => exact absurd (h rfl (Option.isSome_iff_exists.mpr ⟨k, hd⟩)) hran
  rw [enter?_new hname hp hran] at hy
  cases hy
  obtain ⟨_, hi⟩ := x.search.intern_entered (x.place name) site
  have hd := congrArg Search.direct hi
  exact ⟨hx, hd.trans hx⟩

theorem met_visitProperty (s : PassScope) : VisitProperty s Met where
  perform {x} b h := by
    have hstate := x.state_perform s.scope b
    refine h.keep ?_ ?_
    all_goals rw [hstate]; rfl
  register _ _ _ h := h.keep rfl rfl
  say _ h := h.keep rfl rfl
  declareTest name site body h := met_declareTest h name site body
  declarePending name site h := met_declarePending h name site
  declareAfterSuite callback h := by
    rw [declareAfterSuite]
    split
    · exact h.keep rfl rfl
    · exact h
  outside hr h := by
    rcases outside_cases hr with ⟨_, rfl⟩ | ⟨-, hsearch, -, hran⟩
    · exact h.keep rfl rfl
    · exact h.keep (congrArg Search.direct hsearch) hran
  inside hy h := by
    intro _ hs
    rw [(direct_entered hy h).2] at hs
    cases hs
  leave parent name site mark h := met_leave h parent name site mark

/-- The handles found so far are placed, but for the direct test of the pass, which waits. -/
structure Places (q : Prop) (x : Pass) : Prop where
  queues : q → x.world.Queues
  placed : ∀ h ∈ x.search.tests,
    x.world.Placed q h ∨ x.search.direct = some h ∧ x.world.Waits h

/-- How a part of a visit that discards no structural error leaves the handles. -/
structure Prompt (q : Prop) (r : Ran BuildError Pass) : Prop extends Places q r.state where
  met : Met r

theorem Places.grown (h : x.Places q) (ho : x.Onward y) (hd : y.search.direct = x.search.direct)
    (ht : ∀ k ∈ y.search.tests, k ∈ x.search.tests ∨ y.world.Placed q k) : y.Places q := by
  refine ⟨fun k => ho.queues.mpr (h.queues k), fun k hk => ?_⟩
  rw [hd]
  rcases ht k hk with hk | hk
  · exact (h.placed k hk).imp (·.onward ho) fun ⟨hdirect, hw⟩ => ⟨hdirect, hw.onward ho⟩
  · exact .inl hk

theorem Places.onward (h : x.Places q) (ho : x.Onward y) (ht : y.search.tests = x.search.tests)
    (hd : y.search.direct = x.search.direct) : y.Places q :=
  h.grown ho hd fun _ hk => .inl (ht ▸ hk)

/-- One more handle. -/
theorem Places.add (h : x.Places q) (ho : x.Onward y) {k : Handle}
    (ht : y.search.tests = x.search.tests ++ [k]) (hd : y.search.direct = x.search.direct)
    (hk : y.world.Placed q k) : y.Places q := by
  refine h.grown ho hd fun l hl => ?_
  rw [ht] at hl
  rcases List.mem_append.mp hl with hl | hl
  · exact .inl hl
  · rw [List.mem_singleton.mp hl]
    exact .inr hk

theorem Prompt.keep (h : Prompt q ⟨.finished, x⟩) (ho : x.Onward r.state)
    (ht : r.state.search.tests = x.search.tests) (hd : r.state.search.direct = x.search.direct)
    (hr : r.state.visit.ran = x.visit.ran) : Prompt q r :=
  ⟨h.toPlaces.onward ho ht hd, h.met.keep hd hr⟩

/-- A handle whose outcome is known is placed. -/
theorem places_complete (h : x.Places q) (o : Outcome) : (x.complete o).state.Places q := by
  have ho := onward_complete x o
  rw [complete] at ho ⊢
  split at ho
  · exact h.onward ho rfl rfl
  · rename_i hc
    exact h.add ho rfl rfl (World.placed_completed hc)

theorem prompt_declareTest (h : Prompt q ⟨.finished, x⟩) (name : String) (site : Location)
    (body : Body) : Prompt q (x.declareTest s name site body) := by
  refine ⟨?_, met_declareTest h.met name site body⟩
  have ho := onward_declareTest (s := s) x name site body
  by_cases hname : name ∈ x.visit.names
  · rw [declareTest_taken hname] at ho ⊢
    exact h.onward ho rfl rfl
  by_cases hp : x.isProcessed name = true
  · rw [declareTest_processed hname hp] at ho ⊢
    exact h.onward ho rfl rfl
  by_cases hran : x.visit.ran = true
  · rw [declareTest_replayed hname hp hran] at ho ⊢
    exact h.add ho rfl rfl (World.placed_schedule h.queues (TestUnit.returns_replayed _ _))
  · rw [declareTest_direct hname hp hran] at ho ⊢
    -- the pass has met no test, so that it forgets none now
    have hnone : ¬ x.search.direct.isSome = true := fun hs => hran (h.met rfl hs)
    refine ⟨fun k => ho.queues.mpr (h.queues k), fun k hk => ?_⟩
    rcases List.mem_append.mp hk with hk | hk
    · rcases h.placed k hk with hplaced | ⟨hdirect, -⟩
      · exact .inl (hplaced.onward ho)
      · rw [hdirect] at hnone
        exact absurd rfl hnone
    · rw [List.mem_singleton.mp hk]
      exact .inr ⟨rfl, World.waits_scheduleSuspended _ (TestUnit.returns_direct _ _ _ _)⟩

theorem prompt_declarePending (h : Prompt q ⟨.finished, x⟩) (name : String) (site : Location) :
    Prompt q (x.declarePending name site) := by
  refine ⟨?_, met_declarePending h.met name site⟩
  have ho := onward_declarePending x name site
  by_cases hname : name ∈ x.visit.names
  · rw [declarePending_taken hname] at ho ⊢
    exact h.onward ho rfl rfl
  by_cases hp : x.isProcessed name = true
  · rw [declarePending_processed hname hp] at ho ⊢
    exact h.onward ho rfl rfl
  · rw [declarePending_new hname hp]
    have hy : ((x.within (x.parentVisit name)).process name).Places q :=
      h.toPlaces.onward (onward_of_eq rfl) rfl rfl
    exact places_complete hy _

theorem places_fails (h : x.Places q) (name : String) (site : Location) (failure : Failure) :
    (x.fails name site failure).state.Places q := by
  have hplaces := places_complete h ⟨⟨x.visit.context, name, site⟩, .failed failure⟩
  rw [fails]
  generalize x.complete ⟨⟨x.visit.context, name, site⟩, .failed failure⟩ = c at hplaces ⊢
  obtain ⟨_ | e | p, y⟩ := c
  · exact hplaces.onward (onward_of_eq rfl) rfl rfl
  · exact hplaces
  · exact hplaces

theorem places_leaveFailed (h : x.Places q) (name : String) (site : Location) (mark : Nat)
    (failure : Failure) : (leaveFailed name site mark failure x).state.Places q := by
  by_cases hd : x.search.direct.isSome = true
  · rw [leaveFailed_owned hd]
    exact places_fails h _ _ _
  · rw [leaveFailed_swept hd]
    have hswept : x.Onward (x.swept mark) :=
      onward_book rfl (Notebook.beginnings_of_deeds (Notebook.deeds_sweep _ _))
    exact places_fails (h.onward hswept rfl rfl) _ _ _

theorem prompt_leave (h : Prompt q r) (parent : Visit) (name : String) (site : Location)
    (mark : Nat) : Prompt q (leave parent name site mark r) := by
  refine ⟨?_, met_leave h.met parent name site mark⟩
  have hparent : (r.state.within parent).Places q := h.toPlaces.onward (onward_of_eq rfl) rfl rfl
  rw [leave]
  rcases r.ending with _ | (e | c) | p
  · exact hparent.onward (onward_of_eq (world_leaveFinished ..)) (tests_leaveFinished ..)
      (direct_leaveFinished ..)
  · exact hparent
  · exact places_leaveFailed hparent _ _ _ _
  · exact places_leaveFailed hparent _ _ _ _

theorem prompt_visitProperty (s : PassScope) (q : Prop) : VisitProperty s (Prompt q) where
  perform {x} b h := by
    have hstate := x.state_perform s.scope b
    refine h.keep ((onward_visitRelation s).perform x b) ?_ ?_ ?_
    all_goals rw [hstate]; rfl
  register {x} label res close h := h.keep ((onward_visitRelation s).register x _ _ _) rfl rfl rfl
  say {x} line h := h.keep ((onward_visitRelation s).say x line) rfl rfl rfl
  declareTest name site body h := prompt_declareTest h name site body
  declarePending name site h := prompt_declarePending h name site
  declareAfterSuite callback h := by
    rw [declareAfterSuite]
    split
    · exact h.keep (onward_of_eq rfl) rfl rfl rfl
    · exact h
  outside hr h := by
    rcases outside_cases hr with ⟨_, rfl⟩ | ⟨-, hsearch, hworld, hran⟩
    · exact h.keep (onward_of_eq rfl) rfl rfl rfl
    · exact h.keep (onward_of_eq hworld) (congrArg Search.tests hsearch)
        (congrArg Search.direct hsearch) hran
  inside {x name site y} hy h := by
    refine ⟨?_, (met_visitProperty s).inside hy h.met⟩
    have ho := (onward_visitRelation s).enter hy
    obtain ⟨hname, hp, hran⟩ := of_entered hy
    rw [enter?_new hname hp hran] at hy
    cases hy
    obtain ⟨_, hi⟩ := x.search.intern_entered (x.place name) site
    have ht := congrArg Search.tests hi
    have hd := congrArg Search.direct hi
    exact h.toPlaces.onward ho ht hd
  leave parent name site mark h := prompt_leave h parent name site mark

end Pass

/-- **A visit that discards no structural error places every handle**, but for the direct test of its
pass. -/
theorem Builder.visit_prompt {s : PassScope} {q : Prop} (b : Builder) {x : Pass}
    (h : Pass.Prompt q ⟨.finished, x⟩) (hk : ∀ e, .discarded e ∉ b.history s x) :
    Pass.Prompt q (b.visit s x) :=
  b.visit_property (Pass.prompt_visitProperty s q) h hk

/-! ### Passes -/

namespace RootContext

variable {r : RootContext} {search : Search} {w w₀ v : World} {n : Nat} {q : Prop}

theorem onward_opened (r : RootContext) (search : Search) (w : World) :
    w.Onward (r.opened search w).world :=
  World.onward_book (w.book.beginnings_add (e := .entered _ _) rfl)

theorem onward_runPass (r : RootContext) (search : Search) (w : World) :
    w.Onward (r.runPass search w).world := by
  let s : PassScope := ⟨r, ⟨r.index, w.book.invocations⟩, w.shelves.length⟩
  have hvisit := r.builder.visit_rel (Pass.onward_visitRelation s) (r.opened search w)
  have hclosed : (r.builder.visit s (r.opened search w)).state.world.Onward
      (r.runPass search w).world := World.onward_book rfl
  exact ((r.onward_opened search w).trans hvisit).trans hclosed

/-- **A pass that discards no structural error places every handle**, but for its direct test. -/
theorem places_runPass (hq : q → w.Queues) (hp : ∀ h ∈ search.tests, w.Placed q h)
    (hd : search.direct = none) (hk : ∀ e, .discarded e ∉ r.marks search w) :
    ∀ h ∈ (r.runPass search w).search.tests, (r.runPass search w).world.Placed q h ∨
      (r.runPass search w).direct = some h ∧ (r.runPass search w).world.Waits h := by
  have hopen := r.onward_opened search w
  have hbegin : Pass.Prompt q ⟨.finished, r.opened search w⟩ := by
    refine ⟨⟨fun k => hopen.queues.mpr (hq k), fun h hh => .inl ((hp h hh).onward hopen)⟩, ?_⟩
    intro _ hs
    rw [show (r.opened search w).search.direct = none from hd] at hs
    cases hs
  have hend := (r.builder.visit_prompt hbegin hk).placed
  have hclosed : (r.builder.visit ⟨r, ⟨r.index, w.book.invocations⟩, w.shelves.length⟩
      (r.opened search w)).state.world.Onward (r.runPass search w).world := World.onward_book rfl
  exact fun h hh => (hend h hh).imp (·.onward hclosed) fun ⟨hs, hw⟩ => ⟨hs, hw.onward hclosed⟩

theorem onward_behind (r : RootContext) (e : PassEnd) : e.world.Onward (r.behind e) := by
  rw [behind]
  split
  · exact e.world.onward_release _
  · exact e.world.onward_closeWarning _ _ _

/-- Releasing the direct test is all that is left to do behind a pass. -/
theorem placed_release {e : PassEnd} {h k : Handle} (hq : q → e.world.Queues)
    (hd : e.direct = some k) (hp : e.world.Placed q h ∨ e.direct = some h ∧ e.world.Waits h) :
    (e.world.release k).Placed q h := by
  rcases hp with hp | ⟨hdirect, hwaits⟩
  · exact hp.onward (e.world.onward_release k)
  · cases hd.symm.trans hdirect
    exact World.placed_release hq hwaits

theorem placed_behind {e : PassEnd} {h : Handle} (hq : q → e.world.Queues)
    (hp : e.world.Placed q h ∨ e.direct = some h ∧ e.world.Waits h) : (r.behind e).Placed q h := by
  have ho := r.onward_behind e
  rw [behind] at ho ⊢
  cases hd : e.direct with
  | some k => exact placed_release hq hd hp
  | none =>
    rw [hd] at ho hp
    exact (hp.resolve_right (by rintro ⟨⟨⟩, -⟩)).onward ho

theorem Begins.onward (h : r.Begins w₀ n search w) : w₀.Onward w := by
  induction h with
  | first => exact World.onward_refl _
  | next h _ _ _ ih => exact (ih.trans (r.onward_runPass _ _)).trans (r.onward_behind _)

/-- **Every pass begins with handles that are placed.** -/
theorem Begins.placed (hk : r.Forwards w₀) (hq : q → w₀.Queues) (h : r.Begins w₀ n search w) :
    ∀ k ∈ search.tests, w.Placed q k := by
  induction h with
  | first => exact nofun
  | @next n search w h hf he hl ih =>
    have ho := h.onward
    have hpass := places_runPass (fun p => ho.queues.mpr (hq p)) ih h.adds.2.1 (hk _ _ _ h)
    have he := ho.trans (r.onward_runPass search w)
    exact fun k hk => placed_behind (fun p => he.queues.mpr (hq p)) (hpass k hk)

theorem finishFailed_places {f : Failure} {d : Discovery} (hp : ∀ h ∈ search.tests, w.Placed q h)
    (hd : r.finishFailed n f search w = (.ok (.ok d), v)) :
    w.Onward v ∧ ∀ h ∈ d.tests, v.Placed q h := by
  have hcompleted := w.onward_completed ⟨⟨r.context, r.name, r.location⟩, .failed f⟩
  rw [finishFailed] at hd
  split at hd
  · cases hd
  · rename_i h z hc
    rw [hc] at hcompleted
    have htrace : z.Onward v := by
      cases hd
      exact World.onward_book (z.book.beginnings_add (e := .traced _) rfl)
    refine ⟨hcompleted.trans htrace, fun k hk => ?_⟩
    have hmem : k ∈ search.tests ++ [h] := by
      cases hd
      exact hk
    rcases List.mem_append.mp hmem with hmem | hmem
    · exact (hp k hmem).onward (hcompleted.trans htrace)
    · rw [List.mem_singleton.mp hmem]
      exact (World.placed_completed hc).onward htrace

/-- **Every way to end a discovery with a result releases the direct test of the last pass.** -/
theorem Ends.places {e : PassEnd} {d : Discovery}
    {a : Except Payload (Except StructuralError Discovery) × World} (h : r.Ends n e a)
    (ha : a = (.ok (.ok d), v)) (hq : q → e.world.Queues)
    (hp : ∀ k ∈ e.search.tests, e.world.Placed q k ∨ e.direct = some k ∧ e.world.Waits k) :
    e.world.Onward v ∧ ∀ k ∈ d.tests, v.Placed q k := by
  cases h with
  | aborted hf =>
    rw [abort] at ha
    split at ha
    · cases ha
    · cases ha
  | @failedDirect failure k hf he hd =>
    obtain ⟨ho, hplaced⟩ := finishFailed_places (fun h hh => placed_release hq hd (hp h hh)) ha
    exact ⟨(e.world.onward_release k).trans ho, hplaced⟩
  | failedSwept hf he hd =>
    have hclose := e.world.onward_closeShelf e.shelf
    rw [hd] at hp
    obtain ⟨ho, hplaced⟩ := finishFailed_places (fun h hh =>
      ((hp h hh).resolve_right (by rintro ⟨⟨⟩, -⟩)).onward hclose) ha
    exact ⟨hclose.trans ho, hplaced⟩
  | finished =>
    have htrace : (r.behind e).Onward v := by
      cases ha
      exact World.onward_book (Notebook.beginnings_add (e := .traced _) _ rfl)
    refine ⟨(r.onward_behind e).trans htrace, fun k hk => ?_⟩
    have hmem : k ∈ e.search.tests := by
      cases ha
      exact hk
    exact (placed_behind hq (hp k hmem)).onward htrace

/-- **A discovery places every handle**, if no builder discards a structural error: it goes on from
the world that it began in, and each handle has its outcome or waits, in the queue if what is
released is queued. -/
theorem discover_places {d : Discovery} (hk : r.Forwards w) (hd : r.discover w = (.ok (.ok d), v)) :
    w.Onward v ∧ ∀ h ∈ d.tests, v.Placed w.Queues h := by
  obtain ⟨n, search, z, hbegins, hends⟩ := r.discover_ends w
  have ho := hbegins.onward
  have hpass := places_runPass (q := w.Queues) ho.queues.mpr (hbegins.placed hk id)
    hbegins.adds.2.1 (hk _ _ _ hbegins)
  have he := ho.trans (r.onward_runPass search z)
  obtain ⟨hv, hplaced⟩ := hends.places hd he.queues.mpr hpass
  exact ⟨he.trans hv, hplaced⟩

end RootContext

end TestTree
