/-
Discovery of a local root in two worlds.

* `Notebook.Alike`, `Pass.Alike`, `World.Alike` : what two discoveries of one root have in common,
  whatever their pools, policies and listeners are;
* `HandlesInOrder` : how the cells belong to the handles that were made;
* `Builder.visit_alike`, `RootContext.runPass_alike` : each visit and each pass keeps this;
* `RootContext.discover_alike` : **the two discoveries give the same result, and leave alike
  worlds**.

## Design notes

A discovery that begins in a fresh world makes one shelf with each invocation of the builder, so
that both have the same number.
-/
import Mathlib.Data.List.Pairwise
import TestTree.Proofs.Locality
import TestTree.Proofs.Uses

namespace TestTree

/-! ### Alike notebooks -/

/-- Notebooks with equal variables of the first `bound` invocations, which are all that there
were. -/
structure Notebook.Alike (bound : Nat) (n m : Notebook) : Prop where
  left : n.invocations = bound
  right : m.invocations = bound
  locals : ∀ k, m.locals k = n.locals k
  unset : ∀ k, bound ≤ k → ∀ name, n.locals k name = 0

namespace Notebook

variable {bound : Nat} {n m n' m' : Notebook}

/-- Only variables and the number of invocations count. -/
theorem Alike.congr (h : n.Alike bound m) (hn : n'.store = n.store)
    (hi : n'.invocations = n.invocations) (hm : m'.store = m.store)
    (hj : m'.invocations = m.invocations) : n'.Alike bound m' where
  left := hi.trans h.left
  right := hj.trans h.right
  locals := by
    intro k
    funext name
    rw [Notebook.locals, hm, Notebook.locals, hn]
    exact congrFun (h.locals k) name
  unset := by
    intro k hk name
    rw [Notebook.locals, hn]
    exact h.unset k hk name

theorem simulates_alike {s : Scope} (hs : s.invocation < bound) : Simulates s s (Alike bound) where
  root := rfl
  read h := congrFun (h.locals _) _
  write name v h := by
    refine ⟨h.left, h.right, fun k => ?_, fun k hk m => ?_⟩
    · funext m
      rw [locals_write, locals_write, h.locals k]
    · rw [locals_write, if_neg (by omega)]
      exact h.unset k hk m
  event h _ _ := h.congr rfl rfl rfl rfl
  serial _ _ h := h.congr rfl rfl rfl rfl

theorem Alike.invoke (h : n.Alike bound m) (r : RootContext) (path : NamePath) :
    (n.invoke r path).1 = ⟨r.index, bound⟩ ∧ (m.invoke r path).1 = ⟨r.index, bound⟩ ∧
      (n.invoke r path).2.Alike (bound + 1) (m.invoke r path).2 := by
  refine ⟨congrArg _ h.left, congrArg _ h.right, ?_, ?_, h.locals, ?_⟩
  · exact congrArg (· + 1) h.left
  · exact congrArg (· + 1) h.right
  · intro k hk name
    exact h.unset k (Nat.le_of_succ_le hk) name

end Notebook

/-! ### Cells and handles -/

/-- What discovery of `r` puts into the cell of a handle, behind `bound` invocations. -/
inductive Handle.Issued (r : RootContext) (bound : Nat) (h : Handle) : Cell TestUnit Outcome → Prop
  | done (o : Outcome) : Issued r bound h (.done o)
  | replayed : Issued r bound h (.suspended (.replayed h.test r))
  | direct {body : Body} {k : Nat} (hb : body.IsLocal) (hk : k < bound) :
      Issued r bound h (.suspended (.direct h.test body ⟨r.index, k⟩ k))

/-- The path of the test whose unit is in a cell. -/
def Cell.path? : Cell TestUnit Outcome → Option NamePath
  | suspended u => some u.test.path
  | _ => none

/-- Handles are numbered like their cells, each has what was made for it, and units of different
cells have different paths, which were processed. -/
structure HandlesInOrder (r : RootContext) (bound : Nat) (tests : List Handle)
    (processed : List NamePath)
    (cells : List (Cell TestUnit Outcome)) : Prop where
  numbered : tests.map Handle.cell = List.range cells.length
  issued : List.Forall₂ (Handle.Issued r bound) tests cells
  paths : (cells.filterMap Cell.path?).Nodup
  processed : ∀ path ∈ cells.filterMap Cell.path?, path ∈ processed

namespace HandlesInOrder

variable {r : RootContext} {bound : Nat} {tests : List Handle} {processed processed' : List NamePath}
  {cells : List (Cell TestUnit Outcome)}

theorem mono (h : HandlesInOrder r bound tests processed cells)
    (hp : ∀ path ∈ processed, path ∈ processed') : HandlesInOrder r bound tests processed' cells :=
  ⟨h.numbered, h.issued, h.paths, fun path hpath => hp path (h.processed path hpath)⟩

theorem succ (h : HandlesInOrder r bound tests processed cells) :
    HandlesInOrder r (bound + 1) tests processed cells := by
  refine ⟨h.numbered, h.issued.imp fun k c hk => ?_, h.paths, h.processed⟩
  cases hk with
  | done o => exact .done o
  | replayed => exact .replayed
  | direct hb hk => exact .direct hb (Nat.lt_succ_of_lt hk)

/-- One more handle, for a test that was not processed before. -/
theorem add (h : HandlesInOrder r bound tests processed cells)
    (hp : ∀ path ∈ processed, path ∈ processed') {k : Handle} {c : Cell TestUnit Outcome}
    (hn : k.cell = cells.length) (hk : k.Issued r bound c)
    (hc : ∀ path, c.path? = some path → path ∉ processed ∧ path ∈ processed') :
    HandlesInOrder r bound (tests ++ [k]) processed' (cells ++ [c]) := by
  have hlast : ∀ path ∈ [c].filterMap Cell.path?, c.path? = some path := by
    intro path hpath
    obtain ⟨c', hc', heq⟩ := List.mem_filterMap.mp hpath
    rwa [List.mem_singleton.mp hc'] at heq
  refine ⟨?_, List.rel_append h.issued (.cons hk .nil), ?_, ?_⟩
  · rw [List.map_append, h.numbered, List.map_singleton, hn, ← List.range_succ, List.length_append]
    rfl
  · -- whatever is in a cell was processed, and the new path was not
    rw [List.filterMap_append, List.nodup_append]
    refine ⟨h.paths, ?_, fun path hpath path' hpath' heq => ?_⟩
    · cases hcp : c.path? <;> simp [hcp]
    · exact (hc path' (hlast path' hpath')).1 (heq ▸ h.processed path hpath)
  · intro path hpath
    rw [List.filterMap_append] at hpath
    rcases List.mem_append.mp hpath with hpath | hpath
    · exact hp path (h.processed path hpath)
    · exact (hc path (hlast path hpath)).2

end HandlesInOrder

/-! ### Alike passes -/

/-- The scope of the pass that is number `k`. -/
def RootContext.passScope (r : RootContext) (k : Nat) : PassScope :=
  ⟨r, ⟨r.index, k⟩, k⟩

/-- Two passes with the same number that have done the same. -/
structure Pass.Alike (r : RootContext) (k : Nat) (x y : Pass) : Prop where
  visit : y.visit = x.visit
  search : y.search = x.search
  shelf : Shelf.Agree ⟨r.index, k⟩ ⟨r.index, k⟩ x.shelf y.shelf
  book : x.world.book.Alike (k + 1) y.world.book
  cells : y.world.cells = x.world.cells
  left : x.world.listener.Calm
  right : y.world.listener.Calm
  inOrder : HandlesInOrder r (k + 1) x.search.tests x.search.processed x.world.cells

namespace Pass

variable {r : RootContext} {k : Nat} {x y : Pass}

theorem simulates_alike (r : RootContext) (k : Nat) :
    Notebook.Simulates ⟨r.index, k⟩ ⟨r.index, k⟩ (Notebook.Alike (k + 1)) :=
  Notebook.simulates_alike (Nat.lt_succ_self k)

theorem Alike.closet (h : x.Alike r k y) :
    x.closet.Agree ⟨r.index, k⟩ ⟨r.index, k⟩ (Notebook.Alike (k + 1)) y.closet :=
  ⟨h.shelf, h.book⟩

theorem Alike.withCloset (h : x.Alike r k y) {c d : Closet Closure}
    (hc : c.Agree ⟨r.index, k⟩ ⟨r.index, k⟩ (Notebook.Alike (k + 1)) d) :
    (x.withCloset c).Alike r k (y.withCloset d) :=
  ⟨h.visit, h.search, hc.shelf, hc.book, h.cells, h.left, h.right, h.inOrder⟩

theorem Alike.within (h : x.Alike r k y) {v v' : Visit} (hv : v' = v) :
    (x.within v).Alike r k (y.within v') :=
  ⟨hv, h.search, h.shelf, h.book, h.cells, h.left, h.right, h.inOrder⟩

theorem Alike.perform (h : x.Alike r k y) {b : Basic} (hb : b.IsLocal) :
    (x.perform ⟨r.index, k⟩ b).Agree (Alike r k) (y.perform ⟨r.index, k⟩ b) :=
  ((h.closet.perform (simulates_alike r k) hb none).mapError _).mapState fun _ _ => h.withCloset

theorem Alike.register (h : x.Alike r k y) {close : Callback} (hc : close.IsLocal) (label : String)
    (res : Option String) :
    (x.withCloset (x.closet.register label res ⟨close, ⟨r.index, k⟩⟩)).Alike r k
      (y.withCloset (y.closet.register label res ⟨close, ⟨r.index, k⟩⟩)) :=
  h.withCloset (h.closet.register (simulates_alike r k) hc label res)

/-- What is added to the events does not count. -/
theorem Alike.add (h : x.Alike r k y) (e f : Event) :
    Alike r k { x with world := { x.world with book := x.world.book.add e } }
      { y with world := { y.world with book := y.world.book.add f } } :=
  ⟨h.visit, h.search, h.shelf, h.book.congr rfl rfl rfl rfl, h.cells, h.left, h.right, h.inOrder⟩

theorem Alike.parentVisit (h : x.Alike r k y) (name : String) :
    y.parentVisit name = x.parentVisit name := by
  rw [Pass.parentVisit, Pass.parentVisit, h.visit]

theorem Alike.taken (h : x.Alike r k y) (name : String) :
    (x.within (x.parentVisit name)).Alike r k (y.within (y.parentVisit name)) :=
  h.within (h.parentVisit name)

theorem Alike.faulty (h : x.Alike r k y) (e : StructuralError) :
    (x.faulty e).Alike r k (y.faulty e) := by
  refine ⟨h.visit, ?_, h.shelf, h.book, h.cells, h.left, h.right, h.inOrder⟩
  rw [Pass.faulty, Pass.faulty, h.search]

theorem Alike.names (h : x.Alike r k y) : y.visit.names = x.visit.names :=
  congrArg Visit.names h.visit

theorem Alike.isProcessed (h : x.Alike r k y) (name : String) :
    y.isProcessed name = x.isProcessed name := by
  rw [Pass.isProcessed, Pass.isProcessed, place, place, h.search, h.visit]

theorem Alike.process (h : x.Alike r k y) (name : String) :
    (x.process name).Alike r k (y.process name) := by
  refine ⟨h.visit, ?_, h.shelf, h.book, h.cells, h.left, h.right, ?_⟩
  · rw [Pass.process, Pass.process, place, place, h.search, h.visit]
  · exact h.inOrder.mono fun path hp => List.mem_append_left _ hp

/-- A new handle with its cell, for a name that was not processed before. -/
theorem Alike.addTest (h : x.Alike r k y) {name : String} (hp : ¬ x.isProcessed name = true)
    {d d' : Handle} (hdd : d' = d) (hn : d.cell = x.world.cells.length)
    {c : Cell TestUnit Outcome} (hd : d.Issued r (k + 1) c)
    (hc : ∀ path, c.path? = some path → path = x.visit.context.path ++ [name]) {u w : World}
    (hu : u.cells = x.world.cells ++ [c]) (hw : w.cells = y.world.cells ++ [c])
    (hb : u.book.Alike (k + 1) w.book) (hl : u.listener = x.world.listener)
    (hr : w.listener = y.world.listener) :
    Alike r k ({ x.process name with world := u }.addTest d)
      ({ y.process name with world := w }.addTest d') := by
  -- the worlds `u` and `w` may differ in their pools, and so may their events
  have hproc := h.process name
  refine ⟨h.visit, ?_, h.shelf, hb, ?_, ?_, ?_, ?_⟩
  · show { (y.process name).search with tests := (y.process name).search.tests ++ [d'] } = _
    rw [hproc.search, hdd]
    rfl
  · show w.cells = u.cells
    rw [hw, hu, h.cells]
  · show u.listener.Calm
    rw [hl]
    exact h.left
  · show w.listener.Calm
    rw [hr]
    exact h.right
  · show HandlesInOrder r (k + 1) (x.search.tests ++ [d])
      (x.search.processed ++ [(x.place name).path])
      u.cells
    rw [hu]
    refine h.inOrder.add (fun path hpath => List.mem_append_left _ hpath) hn hd fun path hpath => ?_
    rw [hc path hpath]
    exact ⟨mt isProcessed_iff.mpr hp, List.mem_append_right _ (List.mem_singleton_self _)⟩

theorem Alike.direct (h : x.Alike r k y) {d d' : Option Handle} (hd : d' = d) :
    Alike r k { x with search := { x.search with direct := d } }
      { y with search := { y.search with direct := d' } } := by
  refine ⟨h.visit, ?_, h.shelf, h.book, h.cells, h.left, h.right, h.inOrder⟩
  rw [h.search, hd]

theorem Alike.declareTest (h : x.Alike r k y) (name : String) (site : Location) {body : Body}
    (hbody : body.IsLocal) : (x.declareTest (r.passScope k) name site body).Agree (Alike r k)
      (y.declareTest (r.passScope k) name site body) := by
  by_cases hname : name ∈ x.visit.names
  · rw [declareTest_taken hname, declareTest_taken (h.names ▸ hname), h.visit]
    exact ⟨rfl, h.faulty _⟩
  have hname' : name ∉ y.visit.names := by rwa [h.names]
  have hlength : y.world.cells.length = x.world.cells.length := congrArg List.length h.cells
  by_cases hp : x.isProcessed name = true
  · rw [declareTest_processed hname hp, declareTest_processed hname' ((h.isProcessed name).trans hp)]
    exact ⟨rfl, h.taken name⟩
  have hp' : ¬ y.isProcessed name = true := by rwa [h.isProcessed name]
  by_cases hran : x.visit.ran = true
  · -- a handle may be released at once, under one policy and not under the other: only pools differ
    have hran' : y.visit.ran = true := by rwa [h.visit]
    rw [declareTest_replayed hname hp hran, declareTest_replayed hname' hp' hran']
    have hone := World.makes_schedule x.world (.replayed ⟨x.visit.context, name, site⟩ r)
    have htwo := World.makes_schedule y.world (.replayed ⟨y.visit.context, name, site⟩ r)
    refine ⟨rfl, (h.taken name).addTest hp ?_ rfl .replayed ?_ (World.cells_schedule _ _) ?_ ?_
      hone.listener htwo.listener⟩
    · show Handle.mk ⟨y.visit.context, name, site⟩ y.world.cells.length = _
      rw [h.visit, hlength]
      rfl
    · rintro path ⟨⟩
      rfl
    · rw [World.cells_schedule, h.visit]
      rfl
    · exact h.book.congr (World.store_schedule _ _) hone.invocations (World.store_schedule _ _)
        htwo.invocations
  · -- a direct test waits for the end of its pass, whatever the policy is
    have hran' : ¬ y.visit.ran = true := by rwa [h.visit]
    rw [declareTest_direct hname hp hran, declareTest_direct hname' hp' hran', h.visit,
      h.parentVisit]
    let v : Visit := { x.parentVisit name with ran := true }
    let unit : TestUnit := .direct ⟨x.visit.context, name, site⟩ body ⟨r.index, k⟩ k
    have hv : (x.within v).Alike r k (y.within v) := h.within rfl
    have hd : (y.world.scheduleSuspended unit).1 = (x.world.scheduleSuspended unit).1 :=
      congrArg (Handle.mk _) hlength
    have hadd := hv.addTest hp hd rfl (.direct hbody (Nat.lt_succ_self k))
      (by rintro path ⟨⟩; rfl) (u := (x.world.scheduleSuspended unit).2)
      (w := (y.world.scheduleSuspended unit).2) rfl rfl (h.book.congr rfl rfl rfl rfl) rfl rfl
    exact ⟨rfl, hadd.direct (congrArg some hd)⟩

theorem Alike.complete (h : x.Alike r k y) (o : Outcome) :
    (x.complete o).Agree (Alike r k) (y.complete o) := by
  rw [complete_calm (h.left _), complete_calm (h.right _), World.completed_calm (h.left _),
    World.completed_calm (h.right _)]
  refine ⟨rfl, h.visit, ?_, h.shelf, h.book.congr rfl rfl rfl rfl, ?_, h.left, h.right, ?_⟩
  · show { y.search with tests := y.search.tests ++ [Handle.mk o.test y.world.cells.length] } = _
    rw [h.search, h.cells]
    rfl
  · show y.world.cells ++ [.done o] = x.world.cells ++ [.done o]
    rw [h.cells]
  · exact h.inOrder.add (fun _ hp => hp) rfl (.done o) fun path hpath => by cases hpath

theorem Alike.declarePending (h : x.Alike r k y) (name : String) (site : Location) :
    (x.declarePending name site).Agree (Alike r k) (y.declarePending name site) := by
  by_cases hname : name ∈ x.visit.names
  · rw [declarePending_taken hname, declarePending_taken (h.names ▸ hname), h.visit]
    exact ⟨rfl, h.faulty _⟩
  have hname' : name ∉ y.visit.names := by rwa [h.names]
  by_cases hp : x.isProcessed name = true
  · rw [declarePending_processed hname hp,
      declarePending_processed hname' ((h.isProcessed name).trans hp)]
    exact ⟨rfl, h.taken name⟩
  · rw [declarePending_new hname hp, declarePending_new hname' (by rwa [h.isProcessed]), h.visit]
    exact ((h.taken name).process name).complete _

theorem Alike.declareAfterSuite (h : x.Alike r k y) (callback : Callback) :
    (x.declareAfterSuite (r.passScope k) callback).Alike r k
      (y.declareAfterSuite (r.passScope k) callback) := by
  rw [Pass.declareAfterSuite, Pass.declareAfterSuite, h.visit]
  split
  · refine ⟨rfl, ?_, h.shelf, h.book, h.cells, h.left, h.right, h.inOrder⟩
    rw [h.search]
  · exact h

theorem Alike.enter? (h : x.Alike r k y) (name : String) (site : Location) :
    (∃ a b, x.enter? (r.passScope k) name site = .inl a ∧
      y.enter? (r.passScope k) name site = .inl b ∧ a.Agree (Alike r k) b)
    ∨ ∃ a b, x.enter? (r.passScope k) name site = .inr a ∧
      y.enter? (r.passScope k) name site = .inr b ∧ a.Alike r k b := by
  by_cases hname : name ∈ x.visit.names
  · refine .inl ⟨_, _, enter?_taken hname, enter?_taken (h.names ▸ hname), ?_⟩
    rw [h.visit]
    exact ⟨rfl, h.faulty _⟩
  have hname' : name ∉ y.visit.names := by rwa [h.names]
  by_cases hp : x.isProcessed name = true
  · exact .inl ⟨_, _, enter?_processed hname hp,
      enter?_processed hname' ((h.isProcessed name).trans hp), rfl, h.taken name⟩
  have hp' : ¬ y.isProcessed name = true := by rwa [h.isProcessed name]
  by_cases hran : x.visit.ran = true
  · have hran' : y.visit.ran = true := by rwa [h.visit]
    refine .inl ⟨_, _, enter?_skipped hname hp hran, enter?_skipped hname' hp' hran', rfl,
      h.within ?_⟩
    rw [h.parentVisit]
  · have hran' : ¬ y.visit.ran = true := by rwa [h.visit]
    refine .inr ⟨_, _, enter?_new hname hp hran, enter?_new hname' hp' hran', ?_⟩
    have hplace : y.place name = x.place name := by rw [place, place, h.visit]
    obtain ⟨entered, hsearch⟩ := x.search.intern_entered (x.place name) site
    rw [hplace, h.search, hsearch]
    exact ⟨rfl, rfl, h.shelf, h.book.congr rfl rfl rfl rfl, h.cells, h.left, h.right, h.inOrder⟩

theorem Alike.leaveFinished (h : x.Alike r k y) (name : String) (v : Visit) :
    (x.leaveFinished name v).Alike r k (y.leaveFinished name v) := by
  rcases x with ⟨w, t, a, u⟩
  rcases y with ⟨w', t', b, u'⟩
  obtain ⟨rfl, rfl, hs, hb, hc, hl, hr, ho⟩ := h
  rw [Pass.leaveFinished, Pass.leaveFinished]
  dsimp only
  split
  · exact ⟨rfl, rfl, hs, hb, hc, hl, hr, ho⟩
  · exact ⟨rfl, rfl, hs, hb, hc, hl, hr, ho.mono fun path hp => List.mem_append_left _ hp⟩

theorem Alike.fails (h : x.Alike r k y) (name : String) (site : Location) (failure : Failure) :
    (x.fails name site failure).Agree (Alike r k) (y.fails name site failure) := by
  rw [Pass.fails, Pass.fails, h.visit]
  refine (h.complete _).andThen fun x y h => ⟨rfl, (h.process name).within ?_⟩
  rw [(h.process name).visit]

/-- Closing what a sub-context registered finds the same errors in both passes. -/
theorem Alike.swept (h : x.Alike r k y) (mark : Nat) :
    (y.world.book.sweep (y.shelf.since mark)).1 = (x.world.book.sweep (x.shelf.since mark)).1 ∧
      (x.swept mark).Alike r k (y.swept mark) := by
  have hlength : y.shelf.length = x.shelf.length := h.shelf.length_eq.symm
  have hsince : Shelf.Agree ⟨r.index, k⟩ ⟨r.index, k⟩ (x.shelf.since mark) (y.shelf.since mark) := by
    rw [Shelf.since, Shelf.since, hlength]
    exact List.forall₂_take _ h.shelf
  have hupTo : Shelf.Agree ⟨r.index, k⟩ ⟨r.index, k⟩ (x.shelf.upTo mark) (y.shelf.upTo mark) := by
    rw [Shelf.upTo, Shelf.upTo, hlength]
    exact List.forall₂_drop _ h.shelf
  obtain ⟨herrors, hbook⟩ := Notebook.sweep_agree (simulates_alike r k) hsince h.book
  exact ⟨herrors, h.withCloset ⟨hupTo, hbook⟩⟩

theorem Alike.leaveFailed (h : x.Alike r k y) (name : String) (site : Location) (mark : Nat)
    (failure : Failure) : (Pass.leaveFailed name site mark failure x).Agree (Alike r k)
      (Pass.leaveFailed name site mark failure y) := by
  by_cases hd : x.search.direct.isSome = true
  · rw [leaveFailed_owned hd, leaveFailed_owned (by rwa [h.search])]
    exact h.fails _ _ _
  · obtain ⟨herrors, hswept⟩ := h.swept mark
    rw [leaveFailed_swept hd, leaveFailed_swept (by rwa [h.search]), herrors]
    exact hswept.fails _ _ _

theorem Alike.leave {a b : Ran BuildError Pass} (h : a.Agree (Alike r k) b) (parent : Visit)
    (name : String) (site : Location) (mark : Nat) :
    (Pass.leave parent name site mark a).Agree (Alike r k) (Pass.leave parent name site mark b) := by
  obtain ⟨he, h⟩ := h
  have hparent : (a.state.within parent).Alike r k (b.state.within parent) := h.within rfl
  rw [Pass.leave, Pass.leave, he, h.visit]
  rcases a.ending with _ | (e | c) | p
  · exact ⟨rfl, hparent.leaveFinished _ _⟩
  · exact ⟨rfl, hparent⟩
  · exact hparent.leaveFailed _ _ _ _
  · exact hparent.leaveFailed _ _ _ _

end Pass

/-- **A visit of a local builder does the same in two alike passes.** -/
theorem Builder.visit_alike {r : RootContext} {k : Nat} {b : Builder} (hb : b.IsLocal) :
    ∀ {x y : Pass}, x.Alike r k y →
      (b.visit (r.passScope k) x).Agree (Pass.Alike r k) (b.visit (r.passScope k) y) := by
  induction b with
  | done => intro x y h; exact ⟨rfl, h⟩
  | basic b next ih =>
    intro x y h
    exact (h.perform hb.1).andThen fun x y h => ih hb.2 h
  | branch c yes no next ihy ihn ih =>
    intro x y h
    obtain ⟨hname, hy, hn, hnext⟩ := hb
    have hholds : y.world.book.holds (r.passScope k).scope c
        = x.world.book.holds (r.passScope k).scope c :=
      (Pass.simulates_alike r k).holds h.book hname
    rw [visit, visit, hholds]
    refine Ran.Agree.andThen ?_ fun x y h => ih hnext h
    split
    · exact ihy hy h
    · exact ihn hn h
  | autoClose res close next ih => intro x y h; exact ih hb.2 (h.register hb.1 _ _)
  | deferClose close next ih => intro x y h; exact ih hb.2 (h.register hb.1 _ _)
  | test name site body swallow next ih =>
    intro x y h
    exact ((h.declareTest name site hb.1).swallowing swallow).andThen fun x y h => ih hb.2 h
  | context name site inner swallow next ihi ih =>
    intro x y h
    refine Ran.Agree.andThen (Ran.Agree.swallowing ?_ swallow) fun x y h => ih hb.2 h
    -- both passes enter the context, or neither of them does
    rcases h.enter? name site with ⟨a, b, ha, hb', hab⟩ | ⟨a, b, ha, hb', hab⟩
    · rw [ha, hb']
      exact hab
    · rw [ha, hb', h.parentVisit]
      dsimp only
      rw [show b.shelf.mark = a.shelf.mark from hab.shelf.length_eq.symm]
      exact Pass.Alike.leave (ihi hb.1 hab) _ _ _ _
  | pending name site swallow next ih =>
    intro x y h
    exact ((h.declarePending name site).swallowing swallow).andThen fun x y h => ih hb h
  | afterSuite callback next ih => intro x y h; exact ih hb (h.declareAfterSuite callback)
  | logCurrent next ih => intro x y h; exact ih hb (h.add _ _)

/-! ### Alike worlds -/

/-- Two worlds in which discovery of `r` has done the same, and nobody else has done anything. -/
structure World.Alike (r : RootContext) (bound : Nat) (tests : List Handle)
    (processed : List NamePath) (v w : World) : Prop where
  book : v.book.Alike bound w.book
  cells : w.cells = v.cells
  shelves : ∀ k, Shelf.Agree ⟨r.index, k⟩ ⟨r.index, k⟩ (v.shelf k) (w.shelf k)
  leftLength : v.shelves.length = bound
  rightLength : w.shelves.length = bound
  left : v.listener.Calm
  right : w.listener.Calm
  inOrder : HandlesInOrder r bound tests processed v.cells

namespace World

variable {r : RootContext} {bound : Nat} {tests : List Handle} {processed : List NamePath}
  {v w : World}

theorem alike_fresh (r : RootContext) {l₁ l₂ : Listener} (hl₁ : l₁.Calm) (hl₂ : l₂.Calm)
    (pool₁ pool₂ : Pool Nat) (policy₁ policy₂ : StartPolicy) :
    Alike r 0 [] [] (fresh pool₁ l₁ policy₁) (fresh pool₂ l₂ policy₂) where
  book := ⟨rfl, rfl, fun _ => rfl, fun _ _ _ => rfl⟩
  cells := rfl
  shelves _ := .nil
  leftLength := rfl
  rightLength := rfl
  left := hl₁
  right := hl₂
  inOrder := ⟨rfl, .nil, List.nodup_nil, nofun⟩

/-- Pools and events do not count. -/
theorem Alike.congr (h : Alike r bound tests processed v w) {n m : Notebook} (pool₁ pool₂ : Pool Nat)
    (hn : n.store = v.book.store) (hi : n.invocations = v.book.invocations)
    (hm : m.store = w.book.store) (hj : m.invocations = w.book.invocations) :
    Alike r bound tests processed { v with book := n, pool := pool₁ }
      { w with book := m, pool := pool₂ } :=
  ⟨h.book.congr hn hi hm hj, h.cells, h.shelves, h.leftLength, h.rightLength, h.left, h.right,
    h.inOrder⟩

theorem Alike.trace (h : Alike r bound tests processed v w) (l : Level) (message : String)
    (fields : List (String × String)) :
    Alike r bound tests processed (v.trace l message fields) (w.trace l message fields) :=
  h.congr _ _ rfl rfl rfl rfl

theorem Alike.release (h : Alike r bound tests processed v w) (k : Handle) :
    Alike r bound tests processed (v.release k) (w.release k) := by
  obtain ⟨_, _, hv, hn, hi, -⟩ := release_eq v k
  obtain ⟨_, _, hw, hm, hj, -⟩ := release_eq w k
  rw [hv, hw]
  exact h.congr _ _ hn hi hm hj

theorem Alike.closeShelf (h : Alike r bound tests processed v w) {k : Nat} (hk : k < bound) :
    (w.closeShelf k).1 = (v.closeShelf k).1 ∧
      Alike r bound tests processed (v.closeShelf k).2 (w.closeShelf k).2 := by
  have hs : Notebook.Simulates ⟨r.index, k⟩ ⟨r.index, k⟩ (Notebook.Alike bound) :=
    Notebook.simulates_alike hk
  obtain ⟨herrors, hbook⟩ := Notebook.sweep_agree hs (h.shelves k) h.book
  refine ⟨herrors, hbook, h.cells, fun i => ?_, ?_, ?_, h.left, h.right, h.inOrder⟩
  · by_cases hi : i = k
    · subst hi
      rw [World.closeShelf, World.closeShelf, shelf_putCloset_nil, shelf_putCloset_nil]
      exact .nil
    · rw [World.closeShelf, World.closeShelf, shelf_putCloset_of_ne hi, shelf_putCloset_of_ne hi]
      exact h.shelves i
  · exact (List.length_set ..).trans h.leftLength
  · exact (List.length_set ..).trans h.rightLength

theorem Alike.closeWarning (h : Alike r bound tests processed v w) {k : Nat} (hk : k < bound)
    (message root : String) : Alike r bound tests processed (v.closeWarning k message root)
      (w.closeWarning k message root) := by
  obtain ⟨_, hv, hrv⟩ := closeWarning_eq v k message root
  obtain ⟨_, hw, hrw⟩ := closeWarning_eq w k message root
  rw [hv, hw]
  exact (h.closeShelf hk).2.congr _ _ hrv.store hrv.invocations hrw.store hrw.invocations

theorem Alike.completed (h : Alike r bound tests processed v w) (o : Outcome) :
    ∃ k v' w', v.completed o = (.ok k, v') ∧ w.completed o = (.ok k, w') ∧
      Alike r bound (tests ++ [k]) processed v' w' := by
  have hw := completed_calm (h.right (.finished o))
  rw [h.cells] at hw
  refine ⟨_, _, _, completed_calm (h.left _), hw, ?_⟩
  exact ⟨h.book.congr rfl rfl rfl rfl, rfl, h.shelves, h.leftLength, h.rightLength, h.left, h.right,
    h.inOrder.add (fun _ hp => hp) rfl (.done o) fun path hpath => by cases hpath⟩

end World

/-! ### Alike discoveries -/

/-- Two passes that ended alike. -/
structure PassEnd.Alike (r : RootContext) (k : Nat) (e f : PassEnd) : Prop where
  ending : f.ending = e.ending
  left : f.left = e.left
  direct : f.direct = e.direct
  search : f.search = e.search
  shelf : e.shelf = k
  shelf' : f.shelf = k
  world : World.Alike r (k + 1) e.search.tests e.search.processed e.world f.world

theorem PassEnd.Alike.fatal? {r : RootContext} {k : Nat} {e f : PassEnd} (h : e.Alike r k f) :
    RootContext.fatal? f = RootContext.fatal? e := by
  rw [RootContext.fatal?, RootContext.fatal?, h.ending, h.search]

/-- Two discoveries that return the same result; what it lists is in alike worlds. -/
structure RootContext.FoundAlike (r : RootContext)
    (a b : Except Payload (Except StructuralError Discovery) × World) : Prop where
  returns : ∃ x, a.1 = .ok x
  result : b.1 = a.1
  world : ∀ d, a.1 = .ok (.ok d) → ∃ bound processed, World.Alike r bound d.tests processed a.2 b.2

namespace RootContext

variable {r : RootContext} {k : Nat} {search : Search} {v w : World}

theorem opened_alike (h : World.Alike r k search.tests search.processed v w) :
    (r.opened search v).Alike r k (r.opened search w) :=
  ⟨rfl, rfl, .nil, (h.book.invoke r _).2.2, h.cells, h.left, h.right, h.inOrder.succ⟩

/-- **One pass over the builder of a local root.** -/
theorem runPass_alike (hb : r.builder.IsLocal)
    (h : World.Alike r k search.tests search.processed v w) :
    (r.runPass search v).Alike r k (r.runPass search w) := by
  obtain ⟨hending, hp⟩ := Builder.visit_alike hb (opened_alike h)
  have hv := r.shelves_visit search v (r.passScope k) r.builder
  have hw := r.shelves_visit search w (r.passScope k) r.builder
  rw [runPass_eq, runPass_eq, h.book.left, h.book.right]
  rw [h.leftLength] at hv ⊢
  rw [h.rightLength] at hw ⊢
  show PassEnd.Alike r k (.of k (r.builder.visit (r.passScope k) (r.opened search v)))
    (.of k (r.builder.visit (r.passScope k) (r.opened search w)))
  refine ⟨hending, congrArg Visit.left hp.visit, congrArg Search.direct hp.search, ?_, rfl, rfl, ?_⟩
  · exact congrArg (fun t : Search => { t with direct := none }) hp.search
  · refine ⟨hp.book, hp.cells, fun i => ?_, ?_, ?_, hp.left, hp.right, hp.inOrder⟩
    · have hold := h.shelves i
      rw [World.shelf, World.shelf] at hold ⊢
      rw [hv, hw]
      -- a shelf of an earlier pass, the one of this pass, or none
      rcases Nat.lt_trichotomy i k with hi | hi | hi
      · rw [List.getElem?_append_left (by rw [h.leftLength]; exact hi),
          List.getElem?_append_left (by rw [h.rightLength]; exact hi)]
        exact hold
      · subst hi
        rw [List.getElem?_append_right h.leftLength.le, List.getElem?_append_right h.rightLength.le,
          h.leftLength, h.rightLength, Nat.sub_self]
        exact hp.shelf
      · rw [List.getElem?_eq_none (by simp [h.leftLength]; omega),
          List.getElem?_eq_none (by simp [h.rightLength]; omega)]
        exact .nil
    · rw [hv, List.length_append, h.leftLength]
      rfl
    · rw [hw, List.length_append, h.rightLength]
      rfl

theorem abort_calm (e : PassEnd) (error : StructuralError) (he : e.world.listener.Calm) :
    (r.abort e error).1 = .ok (.error error) := by
  obtain ⟨count, v, hc⟩ := World.cancelAll_calm _ he
  rw [abort, hc]

theorem finish_alike (search : Search)
    (h : World.Alike r k search.tests search.processed v w) (passes : Nat) :
    r.FoundAlike (r.finish passes search v) (r.finish passes search w) := by
  refine ⟨⟨_, rfl⟩, rfl, fun d hd => ⟨k, search.processed, ?_⟩⟩
  cases hd
  exact h.trace _ _ _

theorem finishFailed_alike (h : World.Alike r k search.tests search.processed v w) (passes : Nat)
    (failure : Failure) : r.FoundAlike (r.finishFailed passes failure search v)
      (r.finishFailed passes failure search w) := by
  obtain ⟨d, v', w', hv, hw, hd⟩ := h.completed ⟨⟨r.context, r.name, r.location⟩, .failed failure⟩
  rw [finishFailed, finishFailed, hv, hw]
  exact finish_alike { search with tests := search.tests ++ [d] } hd passes

/-- **The passes of two discoveries do the same, as long as there are any.** -/
theorem discoverFrom_alike (hb : r.builder.IsLocal) : ∀ (fuel passes k : Nat) (search : Search)
    (v w : World), World.Alike r k search.tests search.processed v w →
    r.FoundAlike (r.discoverFrom fuel passes search v) (r.discoverFrom fuel passes search w) := by
  intro fuel
  induction fuel with
  | zero => intro passes k search v w h; exact finish_alike search h passes
  | succ fuel ih =>
    intro passes k search v w h
    have hpass := runPass_alike hb h
    rw [discoverFrom, discoverFrom]
    generalize r.runPass search v = e at hpass ⊢
    generalize r.runPass search w = f at hpass ⊢
    obtain ⟨he, hf, hw⟩ : e.shelf = k ∧ f.shelf = k ∧
        World.Alike r (k + 1) e.search.tests e.search.processed e.world f.world :=
      ⟨hpass.shelf, hpass.shelf', hpass.world⟩
    cases hfatal : fatal? e with
    | some error =>
      rw [conclude?_of_fatal hfatal, conclude?_of_fatal (hpass.fatal?.trans hfatal)]
      refine ⟨⟨_, abort_calm _ error hw.left⟩, ?_, fun d hd => ?_⟩
      · exact (abort_calm _ error hw.right).trans (abort_calm _ error hw.left).symm
      · -- nothing is listed
        rw [abort_calm _ error hw.left] at hd
        cases hd
    | none =>
      have hfatal' : fatal? f = none := hpass.fatal?.trans hfatal
      cases hfailure : failure? e.ending with
      | some failure =>
        have hfailure' : failure? f.ending = some failure := by rw [hpass.ending, hfailure]
        rw [conclude?_of_failure hfatal hfailure, conclude?_of_failure hfatal' hfailure',
          concludeFailed, concludeFailed, hpass.direct, hpass.search, he, hf]
        cases e.direct with
        | some d => exact finishFailed_alike (hw.release d) _ _
        | none =>
          obtain ⟨herrors, hclosed⟩ := hw.closeShelf (Nat.lt_succ_self k)
          dsimp only
          rw [herrors]
          exact finishFailed_alike hclosed _ _
      | none =>
        have hfailure' : failure? f.ending = none := by rw [hpass.ending, hfailure]
        have hsearch : r.handOn f = r.handOn e := by rw [handOn, handOn, hpass.search]
        have hbehind : World.Alike r (k + 1) e.search.tests e.search.processed (r.behind e)
            (r.behind f) := by
          rw [behind, behind, hpass.direct, he, hf]
          cases e.direct with
          | some d => exact hw.release d
          | none => exact hw.closeWarning (Nat.lt_succ_self k) _ _
        cases hl : e.left with
        | true =>
          rw [conclude?_of_left hfatal hfailure hl,
            conclude?_of_left hfatal' hfailure' (hpass.left.trans hl), hsearch]
          exact ih _ _ _ _ _ hbehind
        | false =>
          rw [conclude?_of_finished hfatal hfailure hl,
            conclude?_of_finished hfatal' hfailure' (hpass.left.trans hl), hsearch]
          exact finish_alike (r.handOn e) hbehind _

/-- **Two discoveries of a local root give the same result**, whatever their pools and policies
are, and leave alike worlds. -/
theorem discover_alike (hb : r.builder.IsLocal) {l₁ l₂ : Listener} (hl₁ : l₁.Calm) (hl₂ : l₂.Calm)
    (pool₁ pool₂ : Pool Nat) (policy₁ policy₂ : StartPolicy) :
    r.FoundAlike (r.discover (.fresh pool₁ l₁ policy₁)) (r.discover (.fresh pool₂ l₂ policy₂)) :=
  discoverFrom_alike hb _ _ 0 {} _ _ (World.alike_fresh r hl₁ hl₂ pool₁ pool₂ policy₁ policy₂)

end RootContext

end TestTree
