/-
What discovery does to a world.

* `World.Adds` : a world comes from another one by making handles, each with a new cell; no cell
  that was there before changes, and no body is run;
* `World.Makes` : and neither shelves change, nor is a builder invoked;
* `World.Rests` : a step that only queues something or writes down diagnostics;
* `Builder.visitServed_idle` : a visit without workers is the one in which they never come;
* `Builder.visitServed_rel`, `visit_rel` : a relation between passes that every step keeps is kept
  by a whole visit, with the turns of workers or without;
* `Builder.visit_level` : likewise for a relation between moments of the visit of one context;
* `Builder.visit_grows` : a visit does nothing to the world but make the handles that it lists.

## Design notes

Relations between passes speak of the search and the world.  The visit of a context begins and ends
with another `Visit`, which they leave out; that is why entering and leaving are two steps.
-/
import Mathlib.Data.List.Range
import TestTree.Discovery.Served
import TestTree.Proofs.Declarations
import TestTree.Proofs.Frames

namespace TestTree

/-! ### Scripts that run no body -/

namespace Notebook

theorem deeds_perform (n : Notebook) (s : Scope) (res : Option String) (b : Basic) :
    (n.perform s res b).state.deeds = n.deeds :=
  congrArg Prod.fst ((frame_deeds s).perform n res b)

theorem invocations_perform (n : Notebook) (s : Scope) (res : Option String) (b : Basic) :
    (n.perform s res b).state.invocations = n.invocations :=
  congrArg Prod.snd ((frame_deeds s).perform n res b)

theorem deeds_sweep (n : Notebook) (rs : List (Registration Closure)) :
    (n.sweep rs).2.deeds = n.deeds :=
  congrArg Prod.fst (sweep_frame rs (fun _ _ => frame_deeds _) n)

theorem invocations_sweep (n : Notebook) (rs : List (Registration Closure)) :
    (n.sweep rs).2.invocations = n.invocations :=
  congrArg Prod.snd (sweep_frame rs (fun _ _ => frame_deeds _) n)

theorem bodies_of_deeds {n m : Notebook} (h : m.deeds = n.deeds) : m.bodies = n.bodies := by
  rw [bodies_eq_deeds, h, ← bodies_eq_deeds]

theorem deeds_of_acts {n m : Notebook} (h : m.acts = n.acts) : m.deeds = n.deeds := by
  rw [deeds_eq_acts, h, ← deeds_eq_acts]

theorem bodies_of_acts {n m : Notebook} (h : m.acts = n.acts) : m.bodies = n.bodies :=
  bodies_of_deeds (deeds_of_acts h)

end Notebook

/-! ### Making handles -/

/-- Of two lists that go side by side, what is in the second one has a partner in the first. -/
theorem exists_of_forall₂ {α β : Type} {R : α → β → Prop} {as : List α} {bs : List β}
    (h : List.Forall₂ R as bs) {b : β} (hb : b ∈ bs) : ∃ a ∈ as, R a b := by
  induction h with
  | nil => cases hb
  | cons hab _ ih =>
    rcases List.mem_cons.mp hb with rfl | hb
    · exact ⟨_, List.mem_cons_self, hab⟩
    · obtain ⟨a, ha, hr⟩ := ih hb
      exact ⟨a, List.mem_cons_of_mem _ ha, hr⟩

namespace World

/-- The world `w` comes from `v` by making the handles `hs`. -/
structure Adds (v w : World) (hs : List Handle) : Prop where
  cells : v.cells <+: w.cells
  /-- Handles are numbered in the order in which they are made. -/
  handles : hs.map Handle.cell = List.range' v.cells.length hs.length
  length : w.cells.length = v.cells.length + hs.length
  listener : w.listener = v.listener
  policy : w.policy = v.policy
  queue : ∀ i ∈ w.pool.queue, i ∈ v.pool.queue ∨ v.cells.length ≤ i ∧ i < w.cells.length
  shutDown : w.pool.shutDown = v.pool.shutDown
  bodies : w.book.bodies = v.book.bodies

/-- The world `w` comes from `v` by making the handles `hs`, all in one pass. -/
structure Makes (v w : World) (hs : List Handle) : Prop extends Adds v w hs where
  shelves : w.shelves = v.shelves
  invocations : w.book.invocations = v.book.invocations

theorem Adds.refl (w : World) : Adds w w [] :=
  ⟨List.prefix_rfl, rfl, rfl, rfl, rfl, fun _ h => .inl h, rfl, rfl⟩

theorem Adds.trans {u v w : World} {hs ks : List Handle} (h : Adds u v hs) (k : Adds v w ks) :
    Adds u w (hs ++ ks) where
  cells := h.cells.trans k.cells
  handles := by
    rw [List.map_append, h.handles, k.handles, h.length, List.length_append,
      List.range'_append_1]
  length := by rw [k.length, h.length, List.length_append, Nat.add_assoc]
  listener := k.listener.trans h.listener
  policy := k.policy.trans h.policy
  queue := by
    intro i hi
    -- what the second step queued is new for the first one as well
    have hv := h.length
    have hw := k.length
    rcases k.queue i hi with hi | hi
    · rcases h.queue i hi with hi | hi
      · exact .inl hi
      · exact .inr (by omega)
    · exact .inr (by omega)
  shutDown := k.shutDown.trans h.shutDown
  bodies := k.bodies.trans h.bodies

/-- Every handle that was made has a new cell. -/
theorem Adds.lt {v w : World} {hs : List Handle} (h : Adds v w hs) {k : Handle} (hk : k ∈ hs) :
    v.cells.length ≤ k.cell ∧ k.cell < w.cells.length := by
  have hmem : k.cell ∈ hs.map Handle.cell := List.mem_map_of_mem hk
  rw [h.handles, List.mem_range'_1] at hmem
  rw [h.length]
  exact hmem

theorem Adds.nodup {v w : World} {hs : List Handle} (h : Adds v w hs) :
    (hs.map Handle.cell).Nodup := by
  rw [h.handles]
  exact List.nodup_range'

theorem Makes.trans {u v w : World} {hs ks : List Handle} (h : Makes u v hs) (k : Makes v w ks) :
    Makes u w (hs ++ ks) where
  toAdds := h.toAdds.trans k.toAdds
  shelves := k.shelves.trans h.shelves
  invocations := k.invocations.trans h.invocations

theorem adds_book {w : World} {n : Notebook} {shelves : List (Shelf Closure)}
    (hn : n.bodies = w.book.bodies) : Adds w { w with book := n, shelves } [] :=
  ⟨List.prefix_rfl, rfl, rfl, rfl, rfl, fun _ h => .inl h, rfl, hn⟩

theorem makes_book {w : World} {n : Notebook} (hb : n.bodies = w.book.bodies)
    (hi : n.invocations = w.book.invocations) : Makes w { w with book := n } [] :=
  ⟨adds_book hb, rfl, hi⟩

theorem makes_cell (w : World) (c : Cell TestUnit Outcome) (d : Description) :
    Makes w { w with cells := w.cells ++ [c] } [⟨d, w.cells.length⟩] :=
  ⟨⟨⟨[c], rfl⟩, rfl, by simp, rfl, rfl, fun _ h => .inl h, rfl, rfl⟩, rfl, rfl⟩

theorem makes_scheduleSuspended (w : World) (u : TestUnit) :
    Makes w (w.scheduleSuspended u).2 [(w.scheduleSuspended u).1] :=
  (makes_book (n := w.book.trace _ _ _) rfl rfl).trans (makes_cell _ _ _)

theorem Adds.trace {v w : World} {hs : List Handle} (h : Adds v w hs) (l : Level) (m : String)
    (f : List (String × String)) : Adds v (w.trace l m f) hs := by
  have ht : Adds w (w.trace l m f) [] := adds_book rfl
  have := h.trans ht
  rwa [List.append_nil] at this

/-- Starting one of the handles that were made. -/
theorem Adds.start {v w : World} {hs : List Handle} (h : Adds v w hs) {k : Handle}
    (hk : k ∈ hs) : Adds v (w.start k) hs := by
  have hcell := h.lt hk
  unfold World.start
  split
  · cases hp : w.pool.submit? k.cell with
    | none => exact h.trace _ _ _
    | some pool =>
      rw [Pool.submit?] at hp
      split at hp
      · cases hp
      · cases hp
        -- the cell of the handle is all that is new in the queue
        refine ⟨h.cells, h.handles, h.length, h.listener, h.policy, ?_, h.shutDown, h.bodies⟩
        intro i hi
        rcases List.mem_append.mp hi with hi | hi
        · exact h.queue i hi
        · rw [List.mem_singleton.mp hi]
          exact .inr hcell
  · exact h

theorem Adds.release {v w : World} {hs : List Handle} (h : Adds v w hs) {k : Handle}
    (hk : k ∈ hs) : Adds v (w.release k) hs := by
  unfold World.release
  split
  · exact h.start hk
  · exact h

/-- Starting a handle changes the queue, or writes that there is none. -/
theorem start_eq (w : World) (h : Handle) :
    ∃ pool book, w.start h = { w with pool, book } ∧ book.store = w.book.store ∧
      book.invocations = w.book.invocations ∧ book.serials = w.book.serials ∧
      book.deeds = w.book.deeds := by
  unfold World.start
  split
  · cases w.pool.submit? h.cell with
    | none => exact ⟨_, _, rfl, rfl, rfl, rfl, rfl⟩
    | some pool => exact ⟨_, _, rfl, rfl, rfl, rfl, rfl⟩
  · exact ⟨_, _, rfl, rfl, rfl, rfl, rfl⟩

theorem release_eq (w : World) (h : Handle) :
    ∃ pool book, w.release h = { w with pool, book } ∧ book.store = w.book.store ∧
      book.invocations = w.book.invocations ∧ book.serials = w.book.serials ∧
      book.deeds = w.book.deeds := by
  unfold World.release
  split
  · exact start_eq w h
  · exact ⟨_, _, rfl, rfl, rfl, rfl, rfl⟩

@[simp] theorem cells_release (w : World) (h : Handle) : (w.release h).cells = w.cells := by
  obtain ⟨_, _, hw, -⟩ := release_eq w h
  rw [hw]

@[simp] theorem cells_schedule (w : World) (u : TestUnit) :
    (w.schedule u).2.cells = w.cells ++ [.suspended u] := by
  rw [schedule, cells_release]
  rfl

@[simp] theorem store_schedule (w : World) (u : TestUnit) :
    (w.schedule u).2.book.store = w.book.store := by
  obtain ⟨_, _, hw, hs, -⟩ := release_eq (w.scheduleSuspended u).2 (w.scheduleSuspended u).1
  exact (congrArg (·.book.store) hw).trans hs

theorem makes_schedule (w : World) (u : TestUnit) :
    Makes w (w.schedule u).2 [(w.schedule u).1] := by
  have hm := makes_scheduleSuspended w u
  obtain ⟨_, _, hw, -, hi, -⟩ := release_eq (w.scheduleSuspended u).2 (w.scheduleSuspended u).1
  refine ⟨hm.toAdds.release List.mem_cons_self, ?_, ?_⟩
  · exact (congrArg World.shelves hw).trans hm.shelves
  · exact (congrArg (·.book.invocations) hw).trans (hi.trans hm.invocations)

/-- A handle for a known outcome; a listener that panics prevents it. -/
theorem makes_completed (w : World) (o : Outcome) :
    (∃ x, (w.completed o).1 = .error x ∧ Makes w (w.completed o).2 [])
      ∨ ∃ h, (w.completed o).1 = .ok h ∧ Makes w (w.completed o).2 [h] := by
  have hb : Makes w { w with book := w.book.add (.notified (.finished o)) } [] :=
    makes_book rfl rfl
  unfold World.completed World.notify Notebook.notify
  cases w.listener.panic? (.finished o) with
  | some x => exact .inl ⟨x, rfl, hb⟩
  | none => exact .inr ⟨_, rfl, hb.trans (makes_cell _ _ _)⟩

theorem completed_calm {w : World} {o : Outcome} (hw : w.listener.panic? (.finished o) = none) :
    w.completed o = (.ok ⟨o.test, w.cells.length⟩,
      { w with book := w.book.add (.notified (.finished o)), cells := w.cells ++ [.done o] }) := by
  rw [completed, notify, Notebook.notify, hw]

theorem cells_completed {w : World} {o : Outcome}
    (hw : w.listener.panic? (.finished o) = none) :
    (w.completed o).2.cells = w.cells ++ [.done o] := by
  rw [completed_calm hw]

end World

/-! ### Diagnostics -/

namespace World

/-- Only the pool and the diagnostics changed. -/
structure Rests (v w : World) : Prop where
  cells : w.cells = v.cells
  shelves : w.shelves = v.shelves
  listener : w.listener = v.listener
  store : w.book.store = v.book.store
  invocations : w.book.invocations = v.book.invocations
  serials : w.book.serials = v.book.serials
  acts : w.book.acts = v.book.acts

theorem Rests.trans {u v w : World} (h : u.Rests v) (k : v.Rests w) : u.Rests w :=
  ⟨k.cells.trans h.cells, k.shelves.trans h.shelves, k.listener.trans h.listener,
    k.store.trans h.store, k.invocations.trans h.invocations, k.serials.trans h.serials,
    k.acts.trans h.acts⟩

theorem foldl_trace_eq (errors : List TeardownError) (message : String)
    (fields : List (String × String)) : ∀ w : World, ∃ book,
      errors.foldl (fun w e => w.trace .warn (message ++ e.display) fields) w = { w with book }
        ∧ w.Rests { w with book } := by
  induction errors with
  | nil => intro w; exact ⟨_, rfl, rfl, rfl, rfl, rfl, rfl, rfl, rfl⟩
  | cons e rest ih =>
    intro w
    obtain ⟨book, hb, hr⟩ := ih (w.trace .warn (message ++ e.display) fields)
    have htrace : w.Rests (w.trace .warn (message ++ e.display) fields) :=
      ⟨rfl, rfl, rfl, rfl, rfl, rfl, rfl⟩
    exact ⟨book, hb, htrace.trans hr⟩

theorem closeWarning_eq (w : World) (shelf : Nat) (message root : String) :
    ∃ book, w.closeWarning shelf message root = { (w.closeShelf shelf).2 with book } ∧
      (w.closeShelf shelf).2.Rests { (w.closeShelf shelf).2 with book } :=
  foldl_trace_eq (w.closeShelf shelf).1 _ _ (w.closeShelf shelf).2

theorem adds_closeShelf (w : World) (i : Nat) : w.Adds (w.closeShelf i).2 [] :=
  adds_book (Notebook.bodies_of_deeds (Notebook.deeds_sweep _ _))

theorem adds_closeWarning (w : World) (i : Nat) (message root : String) :
    w.Adds (w.closeWarning i message root) [] := by
  obtain ⟨book, hc, hr⟩ := w.closeWarning_eq i message root
  have hbook : (w.closeShelf i).2.Adds { (w.closeShelf i).2 with book } [] :=
    adds_book (Notebook.bodies_of_acts hr.acts)
  rw [hc]
  exact (w.adds_closeShelf i).trans hbook

end World

theorem Pass.complete_calm {x : Pass} {o : Outcome}
    (hx : x.world.listener.panic? (.finished o) = none) :
    x.complete o = ⟨.finished, { x with world := (x.world.completed o).2 }.addTest
      ⟨o.test, x.world.cells.length⟩⟩ := by
  rw [complete, World.completed_calm hx]

/-! ### Visits without workers -/

/-- **A visit without workers is the one in which they never come.** -/
theorem Builder.visitServed_idle (s : PassScope) (b : Builder) :
    b.visitServed Discovery.Turns.idle.during s = b.visit s := by
  induction b with
  | done => rfl
  | basic b next ih => funext x; rw [visitServed, ih]; rfl
  | branch c yes no next ihy ihn ih => funext x; rw [visitServed, ihy, ihn, ih]; rfl
  | autoClose r close next ih => funext x; rw [visitServed, ih]; rfl
  | deferClose close next ih => funext x; rw [visitServed, ih]; rfl
  | test name site body swallow next ih => funext x; rw [visitServed, ih]; rfl
  | context name site inner swallow next ihi ih => funext x; rw [visitServed, ihi, ih]; rfl
  | pending name site swallow next ih => funext x; rw [visitServed, ih]; rfl
  | afterSuite callback next ih => funext x; rw [visitServed, ih]; rfl
  | logCurrent next ih => funext x; rw [visitServed, ih]; rfl

/-! ### Relations that a visit keeps -/

/-- A relation between passes that every step of a visit keeps. -/
structure VisitRelation (s : PassScope) (Rel : Pass → Pass → Prop) : Prop where
  refl : ∀ x, Rel x x
  trans : ∀ {x y z}, Rel x y → Rel y z → Rel x z
  /-- Visits do not count. -/
  visit : ∀ x v, Rel x (x.within v)
  perform : ∀ x b, Rel x (x.perform s.scope b).state
  register : ∀ x label res close, Rel x (x.withCloset (x.closet.register label res close))
  claim : ∀ x name, Rel x (x.claim name).state
  declareTest : ∀ x name site body, Rel x (x.declareTest s name site body).state
  declarePending : ∀ x name site, Rel x (x.declarePending name site).state
  declareAfterSuite : ∀ x callback, Rel x (x.declareAfterSuite s callback)
  say : ∀ x line,
    Rel x { x with world := { x.world with book := x.world.book.say s.scope.root line } }
  enter : ∀ {x name site y}, x.enter? s name site = .inr y → Rel x y
  leaveFinished : ∀ x name v, Rel x (x.leaveFinished name v)
  leaveFailed : ∀ x name site mark failure,
    Rel x (Pass.leaveFailed name site mark failure x).state

/-- What follows from two relations that every step keeps. -/
theorem VisitRelation.both {s : PassScope} {R S Rel : Pass → Pass → Prop} (H : VisitRelation s R)
    (K : VisitRelation s S) (both : ∀ {x y}, R x y → S x y → Rel x y)
    (trans : ∀ {x y z}, Rel x y → Rel y z → Rel x z) : VisitRelation s Rel where
  refl x := both (H.refl x) (K.refl x)
  trans := trans
  visit x v := both (H.visit x v) (K.visit x v)
  perform x b := both (H.perform x b) (K.perform x b)
  register x l res close := both (H.register x l res close) (K.register x l res close)
  claim x name := both (H.claim x name) (K.claim x name)
  declareTest x name site body :=
    both (H.declareTest x name site body) (K.declareTest x name site body)
  declarePending x name site := both (H.declarePending x name site) (K.declarePending x name site)
  declareAfterSuite x c := both (H.declareAfterSuite x c) (K.declareAfterSuite x c)
  say x line := both (H.say x line) (K.say x line)
  enter h := both (H.enter h) (K.enter h)
  leaveFinished x name v := both (H.leaveFinished x name v) (K.leaveFinished x name v)
  leaveFailed x name site mark f :=
    both (H.leaveFailed x name site mark f) (K.leaveFailed x name site mark f)

section Visit

variable {s : PassScope} {Rel : Pass → Pass → Prop} (H : VisitRelation s Rel)
include H

/-- Nothing is entered where a name is taken, processed, or declared behind a test. -/
theorem VisitRelation.outside {x : Pass} {name : String} {site : Location}
    {r : Ran BuildError Pass} (h : x.enter? s name site = .inl r) : Rel x r.state := by
  have hc := H.claim x name
  rw [Pass.enter?] at h
  dsimp only at h
  split at h
  · split at h
    · cases h
      exact hc
    · split at h
      · cases h
        exact H.trans hc (H.visit _ _)
      · cases h
  · cases h
    exact hc

theorem VisitRelation.leave (parent : Visit) (name : String) (site : Location) (mark : Nat)
    (r : Ran BuildError Pass) : Rel r.state (Pass.leave parent name site mark r).state := by
  have hv := H.visit r.state parent
  rw [Pass.leave]
  rcases r.ending with _ | (e | c) | p
  · exact H.trans hv (H.leaveFinished _ _ _)
  · exact hv
  · exact H.trans hv (H.leaveFailed _ _ _ _ _)
  · exact H.trans hv (H.leaveFailed _ _ _ _ _)

/-- **What every step of a visit and every turn of the workers keep, a whole visit keeps** in which
the workers take their turns. -/
theorem Builder.visitServed_rel {turns : Builder → Pass → Nat}
    (hturn : ∀ b x, Rel x (x.served (turns b x))) (b : Builder) :
    ∀ x, Rel x (b.visitServed turns s x).state := by
  induction b with
  | done => exact hturn .done
  | basic b next ih =>
    intro x
    exact H.trans (hturn (.basic b next) x) (Ran.andThen_rel Rel H.trans (H.perform _ b) ih)
  | branch c yes no next ihy ihn ih =>
    intro x
    refine H.trans (hturn (.branch c yes no next) x) (Ran.andThen_rel Rel H.trans ?_ ih)
    split
    · exact ihy _
    · exact ihn _
  | autoClose r close next ih =>
    intro x
    exact H.trans (hturn (.autoClose r close next) x) (H.trans (H.register _ _ _ _) (ih _))
  | deferClose close next ih =>
    intro x
    exact H.trans (hturn (.deferClose close next) x) (H.trans (H.register _ _ _ _) (ih _))
  | test name site body swallow next ih =>
    intro x
    refine H.trans (hturn (.test name site body swallow next) x) (Ran.andThen_rel Rel H.trans ?_ ih)
    rw [Ran.state_swallowing]
    exact H.declareTest _ name site body
  | context name site inner swallow next ihi ih =>
    intro x
    refine H.trans (hturn (.context name site inner swallow next) x)
      (Ran.andThen_rel Rel H.trans ?_ ih)
    rw [Ran.state_swallowing]
    generalize x.served _ = y
    cases h : y.enter? s name site with
    | inl r => exact H.outside h
    | inr z =>
      -- the relation must hold across entering and leaving, where the visit is another one
      exact H.trans (H.enter h) (H.trans (ihi z) (H.leave _ _ _ _ _))
  | pending name site swallow next ih =>
    intro x
    refine H.trans (hturn (.pending name site swallow next) x) (Ran.andThen_rel Rel H.trans ?_ ih)
    rw [Ran.state_swallowing]
    exact H.declarePending _ name site
  | afterSuite callback next ih =>
    intro x
    exact H.trans (hturn (.afterSuite callback next) x)
      (H.trans (H.declareAfterSuite _ callback) (ih _))
  | logCurrent next ih =>
    intro x
    exact H.trans (hturn (.logCurrent next) x) (H.trans (H.say _ _) (ih _))

/-- **What every step of a visit keeps, a whole visit keeps.** -/
theorem Builder.visit_rel (b : Builder) (x : Pass) : Rel x (b.visit s x).state := by
  have hturn : ∀ b y, Rel y (y.served (Discovery.Turns.idle.during b y)) := fun _ => H.refl
  rw [← visitServed_idle]
  exact visitServed_rel H hturn b x

end Visit

/-- A relation between moments of the visit of one context that every step of the visit keeps.  The
visit of a sub-context, from entering to leaving it, is one step. -/
structure LevelRelation (s : PassScope) (Rel : Pass → Pass → Prop) : Prop where
  refl : ∀ x, Rel x x
  trans : ∀ {x y z}, Rel x y → Rel y z → Rel x z
  perform : ∀ x b, Rel x (x.perform s.scope b).state
  register : ∀ x label res close, Rel x (x.withCloset (x.closet.register label res close))
  say : ∀ x line,
    Rel x { x with world := { x.world with book := x.world.book.say s.scope.root line } }
  declareTest : ∀ x name site body, Rel x (x.declareTest s name site body).state
  declarePending : ∀ x name site, Rel x (x.declarePending name site).state
  declareAfterSuite : ∀ x callback, Rel x (x.declareAfterSuite s callback)
  outside : ∀ {x name site r}, x.enter? s name site = .inl r → Rel x r.state
  leave : ∀ {x name site y} {r : Ran BuildError Pass}, x.enter? s name site = .inr y →
    Rel y r.state → ∀ mark, Rel x (Pass.leave (x.parentVisit name) name site mark r).state

/-- **What every step of the visit of a context keeps, the whole visit keeps.** -/
theorem Builder.visit_level {s : PassScope} {Rel : Pass → Pass → Prop} (H : LevelRelation s Rel)
    (b : Builder) : ∀ x, Rel x (b.visit s x).state := by
  induction b with
  | done => intro x; exact H.refl x
  | basic b next ih => intro x; exact Ran.andThen_rel Rel H.trans (H.perform x b) ih
  | branch c yes no next ihy ihn ih =>
    intro x
    rw [visit]
    split
    · exact Ran.andThen_rel Rel H.trans (ihy x) ih
    · exact Ran.andThen_rel Rel H.trans (ihn x) ih
  | autoClose r close next ih => intro x; exact H.trans (H.register x _ _ _) (ih _)
  | deferClose close next ih => intro x; exact H.trans (H.register x _ _ _) (ih _)
  | test name site body swallow next ih =>
    intro x
    refine Ran.andThen_rel Rel H.trans ?_ ih
    rw [Ran.state_swallowing]
    exact H.declareTest x name site body
  | context name site inner swallow next ihi ih =>
    intro x
    refine Ran.andThen_rel Rel H.trans ?_ ih
    rw [Ran.state_swallowing]
    cases h : x.enter? s name site with
    | inl r => exact H.outside h
    | inr y => exact H.leave h (ihi y) _
  | pending name site swallow next ih =>
    intro x
    refine Ran.andThen_rel Rel H.trans ?_ ih
    rw [Ran.state_swallowing]
    exact H.declarePending x name site
  | afterSuite callback next ih => intro x; exact H.trans (H.declareAfterSuite x callback) (ih _)
  | logCurrent next ih => intro x; exact H.trans (H.say x _) (ih _)

/-! ### A visit makes the handles that it lists -/

/-- The pass `y` comes from `x` by making handles, each of which is listed; a direct test of the
pass is one of them. -/
structure Pass.GrowsBy (x y : Pass) (hs : List Handle) : Prop where
  tests : y.search.tests = x.search.tests ++ hs
  makes : World.Makes x.world y.world hs
  direct : ∀ h, y.search.direct = some h → x.search.direct = some h ∨ h ∈ hs

/-- The pass `y` comes from `x` by making handles. -/
def Pass.Grows (x y : Pass) : Prop :=
  ∃ hs, x.GrowsBy y hs

namespace Pass

/-- A step that lists nothing and writes to the notebook at most. -/
theorem grows_book {x y : Pass} (ht : y.search.tests = x.search.tests)
    (hd : y.search.direct = x.search.direct) {n : Notebook}
    (hw : y.world = { x.world with book := n }) (hb : n.bodies = x.world.book.bodies)
    (hi : n.invocations = x.world.book.invocations) : x.Grows y := by
  refine ⟨[], by rw [ht, List.append_nil], ?_, fun h hh => .inl (hd ▸ hh)⟩
  rw [hw]
  exact World.makes_book hb hi

theorem grows_of_eq {x y : Pass} (ht : y.search.tests = x.search.tests)
    (hd : y.search.direct = x.search.direct) (hw : y.world = x.world) : x.Grows y :=
  grows_book ht hd hw rfl rfl

theorem grows_within (x : Pass) (v : Visit) : x.Grows (x.within v) :=
  grows_of_eq rfl rfl rfl

theorem Grows.trans {x y z : Pass} (h : x.Grows y) (k : y.Grows z) : x.Grows z := by
  obtain ⟨hs, h⟩ := h
  obtain ⟨ks, k⟩ := k
  refine ⟨hs ++ ks, by rw [k.tests, h.tests, List.append_assoc], h.makes.trans k.makes, ?_⟩
  intro d hd
  rw [List.mem_append]
  rcases k.direct d hd with hd | hd
  · exact (h.direct d hd).imp_right .inl
  · exact .inr (.inr hd)

theorem Grows.cells {x y : Pass} (h : x.Grows y) : x.world.cells <+: y.world.cells := by
  obtain ⟨_, h⟩ := h
  exact h.makes.cells

theorem Grows.listener {x y : Pass} (h : x.Grows y) : y.world.listener = x.world.listener := by
  obtain ⟨_, h⟩ := h
  exact h.makes.listener

theorem grows_complete (x : Pass) (o : Outcome) : x.Grows (x.complete o).state := by
  rw [complete]
  rcases World.makes_completed x.world o with ⟨p, hp, hm⟩ | ⟨h, hh, hm⟩
  · rw [show x.world.completed o = (.error p, (x.world.completed o).2) from Prod.ext hp rfl]
    exact ⟨[], (List.append_nil _).symm, hm, fun _ => .inl⟩
  · rw [show x.world.completed o = (.ok h, (x.world.completed o).2) from Prod.ext hh rfl]
    exact ⟨[h], rfl, hm, fun _ => .inl⟩

theorem grows_claim (x : Pass) (name : String) : x.Grows (x.claim name).state := by
  rw [claim]
  split
  · exact grows_of_eq rfl rfl rfl
  · exact grows_of_eq rfl rfl rfl

theorem grows_declareTest (s : PassScope) (x : Pass) (name : String) (site : Location)
    (body : Body) : x.Grows (x.declareTest s name site body).state := by
  refine Ran.andThen_rel Grows Grows.trans (grows_claim x name) fun y => ?_
  split
  · exact grows_of_eq rfl rfl rfl
  · dsimp only
    split
    · exact ⟨_, rfl, World.makes_schedule _ _, fun _ => .inl⟩
    · refine ⟨_, rfl, World.makes_scheduleSuspended _ _, ?_⟩
      intro h hh
      cases hh
      exact .inr List.mem_cons_self

theorem grows_declarePending (x : Pass) (name : String) (site : Location) :
    x.Grows (x.declarePending name site).state := by
  refine Ran.andThen_rel Grows Grows.trans (grows_claim x name) fun y => ?_
  split
  · exact grows_of_eq rfl rfl rfl
  · have hy : y.Grows (y.process name) := grows_of_eq rfl rfl rfl
    exact hy.trans (grows_complete _ _)

theorem grows_enter {s : PassScope} {x y : Pass} {name : String} {site : Location}
    (h : x.enter? s name site = .inr y) : x.Grows y := by
  obtain ⟨hname, hp, hran⟩ := of_entered h
  rw [enter?_new hname hp hran] at h
  cases h
  obtain ⟨_, hi⟩ := x.search.intern_entered (x.place name) site
  have ht := congrArg Search.tests hi
  have hd := congrArg Search.direct hi
  exact grows_book ht hd rfl rfl rfl

theorem grows_leaveFinished (x : Pass) (name : String) (v : Visit) :
    x.Grows (x.leaveFinished name v) := by
  rw [leaveFinished]
  split
  · exact grows_of_eq rfl rfl rfl
  · exact grows_of_eq rfl rfl rfl

theorem grows_fails (x : Pass) (name : String) (site : Location) (failure : Failure) :
    x.Grows (x.fails name site failure).state :=
  Ran.andThen_rel Grows Grows.trans (grows_complete x _) fun _ => grows_of_eq rfl rfl rfl

theorem grows_leaveFailed (x : Pass) (name : String) (site : Location) (mark : Nat)
    (failure : Failure) : x.Grows (leaveFailed name site mark failure x).state := by
  by_cases hd : x.search.direct.isSome = true
  · rw [leaveFailed_owned hd]
    exact grows_fails _ _ _ _
  · rw [leaveFailed_swept hd]
    -- the callbacks that are closed run no body
    have hswept : x.Grows (x.swept mark) :=
      grows_book rfl rfl rfl (Notebook.bodies_of_deeds (Notebook.deeds_sweep _ _))
        (Notebook.invocations_sweep _ _)
    exact hswept.trans (grows_fails _ _ _ _)

theorem state_perform (x : Pass) (s : Scope) (b : Basic) :
    (x.perform s b).state = x.withCloset ⟨x.shelf, (x.world.book.perform s none b).state⟩ := by
  rw [perform, Closet.perform]
  rcases h : x.world.book.perform s none b with ⟨_ | e | p, n⟩ <;>
    simp [closet, h, Ran.mapState, Ran.mapError]

theorem grows_visitRelation (s : PassScope) : VisitRelation s Grows where
  refl x := grows_of_eq rfl rfl rfl
  trans := Grows.trans
  visit := grows_within
  perform x b := by
    rw [state_perform]
    exact grows_book rfl rfl rfl (Notebook.bodies_of_deeds (Notebook.deeds_perform _ _ _ b))
      (Notebook.invocations_perform _ _ _ b)
  register x label res close := grows_book rfl rfl rfl rfl rfl
  claim := grows_claim
  declareTest := grows_declareTest s
  declarePending := grows_declarePending
  declareAfterSuite x callback := by
    rw [declareAfterSuite]
    split
    · exact grows_of_eq rfl rfl rfl
    · exact grows_of_eq rfl rfl rfl
  say x line := grows_book rfl rfl rfl rfl rfl
  enter := grows_enter
  leaveFinished := grows_leaveFinished
  leaveFailed := grows_leaveFailed

end Pass

/-- **A visit does nothing to the world but make the handles that it lists.** -/
theorem Builder.visit_grows (s : PassScope) (b : Builder) (x : Pass) :
    x.Grows (b.visit s x).state :=
  b.visit_rel (Pass.grows_visitRelation s) x

/-! ### Passes -/

namespace RootContext

theorem runPass_eq (r : RootContext) (search : Search) (w : World) :
    r.runPass search w = .of w.shelves.length
      (r.builder.visit ⟨r, ⟨r.index, w.book.invocations⟩, w.shelves.length⟩ (r.opened search w)) :=
  rfl

/-- The shelf of a pass is the last one when the pass ends. -/
theorem shelves_visit (r : RootContext) (search : Search) (w : World) (s : PassScope) (b : Builder) :
    (PassEnd.of w.shelves.length (b.visit s (r.opened search w))).world.shelves
      = w.shelves ++ [(b.visit s (r.opened search w)).state.shelf] := by
  obtain ⟨hs, hgrows⟩ := b.visit_grows s (r.opened search w)
  -- a visit changes no shelf of the world: what it registers is on the shelf of the pass
  have hshelves : (b.visit s (r.opened search w)).state.world.shelves = w.shelves ++ [[]] :=
    hgrows.makes.shelves
  show (b.visit s (r.opened search w)).state.world.shelves.set w.shelves.length _ = _
  rw [hshelves, List.set_append_right _ _ (Nat.le_refl _), Nat.sub_self]
  rfl

/-! ### Behind a pass -/

variable {r : RootContext} {n : Nat} {e : PassEnd}

theorem conclude?_of_fatal {error : StructuralError} (hf : fatal? e = some error) :
    r.conclude? n e = some (r.abort e error) := by
  rw [conclude?, hf]

theorem conclude?_of_failure {failure : Failure} (hf : fatal? e = none)
    (he : failure? e.ending = some failure) :
    r.conclude? n e = some (r.concludeFailed n failure e) := by
  rw [conclude?, hf, he]

/-- Another pass follows one without an error that left contexts. -/
theorem conclude?_of_left (hf : fatal? e = none) (he : failure? e.ending = none)
    (hl : e.left = true) : r.conclude? n e = none := by
  rw [conclude?, hf, he]
  exact if_pos hl

theorem conclude?_of_finished (hf : fatal? e = none) (he : failure? e.ending = none)
    (hl : e.left = false) : r.conclude? n e = some (r.finish n (r.handOn e) (r.behind e)) := by
  rw [conclude?, hf, he]
  exact if_neg (by rw [hl]; exact Bool.false_ne_true)

end RootContext

end TestTree
