/-
What a pass registers, what it closes, and who owns what it leaves on its shelf.

* `Stocked` : the events of a part of a pass, by what the part leaves on the shelf;
* `Stocked.perm`, `Stocked.sublist` : what is registered is closed once or left, and what is left is
  in reverse order of registration;
* `Builder.visit_leavesStocked` : **a visit closes callbacks of contexts that fail, when these fail,
  and no others**;
* `Pass.Deals` : the cells that a visit makes, and what the listener is told;
* `Builder.visit_sole` : a visit that discards no structural error gives the shelf of the pass one
  owner at most.

## Design notes

A context that fails behind a direct test closes nothing, as the test owns the shelf.  So whatever a
pass closes was registered before its direct test was met.
-/
import TestTree.Proofs.Custody
import TestTree.Proofs.History

namespace TestTree

open scoped List

/-! ### Events of a pass -/

/-- A part of a pass that wrote the events `es` left the callbacks `ns` on the shelf, the latest
first. -/
inductive Stocked : List Event → List Nat → Prop
  | nil : Stocked [] []
  | event {e : Event} (hr : e.registered? = none) (hc : e.closed? = none) : Stocked [e] []
  | registered (n : Nat) : Stocked [.registered n] [n]
  | append {es fs : List Event} {ns ms : List Nat} (h : Stocked es ns) (k : Stocked fs ms) :
      Stocked (es ++ fs) (ms ++ ns)
  /-- A context was entered and failed: what its builder left is closed, and the listener is
  told. -/
  | failed {root : Nat} {o : Outcome} {es cs : List Event} {ns : List Nat} (h : Stocked es ns)
      (hc : Closes ns cs) :
      Stocked ([.entered root o.test.path] ++ es ++ cs ++ [.notified (.finished o)]) []

namespace Stocked

variable {es : List Event} {ns : List Nat}

/-- **What is registered is closed once, or left.** -/
theorem perm (h : Stocked es ns) : closedIn es ++ ns ~ registeredIn es := by
  induction h with
  | nil => exact .refl _
  | event hr hc => simp [hr, hc]
  | registered n => exact .refl _
  | @append es fs ns ms _ _ ihe ihf =>
    rw [closedIn_append, registeredIn_append, List.append_assoc]
    calc closedIn es ++ (closedIn fs ++ (ms ++ ns))
      _ ~ closedIn es ++ (ns ++ (closedIn fs ++ ms)) := by
        rw [← List.append_assoc (closedIn fs)]
        exact List.perm_append_comm.append_left _
      _ ~ closedIn es ++ (ns ++ registeredIn fs) := (ihf.append_left _).append_left _
      _ ~ registeredIn es ++ registeredIn fs := by
        rw [← List.append_assoc]
        exact ihe.append_right _
  | @failed root o es cs ns _ hc ih =>
    simpa [hc.closed, hc.registered, Event.closed?, Event.registered?] using ih

/-- **What is left is in reverse order of registration.** -/
theorem sublist (h : Stocked es ns) : ns <+ (registeredIn es).reverse := by
  induction h with
  | nil => exact .refl _
  | event hr hc => exact List.nil_sublist _
  | registered n => exact .refl _
  | append _ _ ihe ihf =>
    rw [registeredIn_append, List.reverse_append]
    exact ihf.append ihe
  | failed _ hc ih => exact List.nil_sublist _

/-- Where nothing is closed, everything is left. -/
theorem of_unclosed (h : closedIn es = []) : Stocked es (registeredIn es).reverse := by
  induction es with
  | nil => exact .nil
  | cons e rest ih =>
    rw [closedIn_cons, List.append_eq_nil_iff, Option.toList_eq_nil_iff] at h
    have hfirst : Stocked [e] e.registered?.toList.reverse := by
      cases e with
      | registered n => exact .registered n
      | _ => exact .event rfl h.1
    rw [registeredIn_cons, List.reverse_append]
    exact hfirst.append (ih h.2)

end Stocked

/-! ### What a visit leaves on the shelf -/

/-- Between two moments of a pass `es` were written, and `Stocked` tells what was left on the
shelf. -/
def Closet.LeavesStocked (c d : Closet Closure) : Prop :=
  ∃ es more, c.book.Writes d.book es ∧ d.shelf = more ++ c.shelf ∧ Stocked es (Shelf.serials more)

namespace Closet

variable {c d e : Closet Closure}

theorem LeavesStocked.trans (h : c.LeavesStocked d) (k : d.LeavesStocked e) :
    c.LeavesStocked e := by
  obtain ⟨es, more, hw, hs, hst⟩ := h
  obtain ⟨fs, more', kw, ks, kst⟩ := k
  refine ⟨es ++ fs, more' ++ more, hw.trans kw, by rw [ks, hs, List.append_assoc], ?_⟩
  rw [Shelf.serials, List.map_append]
  exact hst.append kst

theorem Stocks.leavesStocked (h : c.Stocks d) : c.LeavesStocked d := by
  obtain ⟨es, hw, ⟨more, hs, hm⟩, hc, -⟩ := h
  refine ⟨es, more, hw, hs, ?_⟩
  rw [hm]
  exact .of_unclosed hc

theorem leavesStocked_add (c : Closet Closure) {e : Event} (ha : e.isAct = true)
    (hr : e.registered? = none)
    (hc : e.closed? = none) : c.LeavesStocked { c with book := c.book.add e } :=
  ⟨[e], [], c.book.writes_add ha hr, rfl, .event hr hc⟩

/-- A context was entered and failed.  The mark is the height of the shelf below what its builder
left. -/
theorem LeavesStocked.failed {root : Nat} {o : Outcome}
    (h : Closet.LeavesStocked ⟨c.shelf, c.book.add (.entered root o.test.path)⟩ d) :
    c.LeavesStocked ⟨d.shelf.upTo c.shelf.mark,
      (d.book.sweep (d.shelf.since c.shelf.mark)).2.add (.notified (.finished o))⟩ := by
  obtain ⟨es, more, hw, hs, hst⟩ := h
  have hsince : d.shelf.since c.shelf.mark = more := by
    rw [show d.shelf = more ++ c.shelf from hs, Shelf.since, Shelf.mark]
    simp
  have hupTo : d.shelf.upTo c.shelf.mark = c.shelf := by
    rw [show d.shelf = more ++ c.shelf from hs, Shelf.upTo, Shelf.mark]
    simp
  obtain ⟨cs, hcw, hc⟩ := d.book.sweep_writes more
  have henter := c.book.writes_add (e := .entered root o.test.path) rfl rfl
  have htold := (d.book.sweep more).2.writes_add (e := .notified (.finished o)) rfl rfl
  rw [hsince, hupTo]
  exact ⟨_, [], ((henter.trans hw).trans hcw).trans htold, rfl, hst.failed hc⟩

theorem leavesStocked_of_notes (hs : d.shelf = c.shelf) (hb : c.book.Notes d.book) :
    c.LeavesStocked d := by
  obtain ⟨shelf, book⟩ := d
  cases hs
  exact (stocks_notes hb).leavesStocked

end Closet

namespace World

theorem notes_start (w : World) (h : Handle) : w.book.Notes (w.start h).book := by
  rw [start]
  split
  · split
    · exact w.book.notes_refl
    · exact Notebook.notes_of_eq rfl rfl
  · exact w.book.notes_refl

theorem notes_release (w : World) (h : Handle) : w.book.Notes (w.release h).book := by
  rw [release]
  split
  · exact w.notes_start h
  · exact w.book.notes_refl

theorem notes_schedule (w : World) (u : TestUnit) : w.book.Notes (w.schedule u).2.book := by
  have hscheduled : w.book.Notes (w.scheduleSuspended u).2.book := Notebook.notes_of_eq rfl rfl
  exact hscheduled.trans (notes_release _ _)

end World

namespace Pass

variable {s : PassScope} {x y : Pass}

/-- Between two moments of a pass, `Stocked` tells what was left on the shelf. -/
def LeavesStocked (x y : Pass) : Prop :=
  x.closet.LeavesStocked y.closet

theorem LeavesStocked.trans {z : Pass} (h : x.LeavesStocked y) (k : y.LeavesStocked z) :
    x.LeavesStocked z :=
  Closet.LeavesStocked.trans h k

theorem leavesStocked_of_eq (hs : y.shelf = x.shelf) (hw : y.world.book = x.world.book) :
    x.LeavesStocked y :=
  Closet.leavesStocked_of_notes hs (Notebook.notes_of_eq (congrArg Notebook.acts hw)
    (congrArg Notebook.serials hw))

theorem leavesStocked_refl (x : Pass) : x.LeavesStocked x :=
  leavesStocked_of_eq rfl rfl

theorem closet_complete (x : Pass) (o : Outcome) :
    (x.complete o).state.closet = ⟨x.shelf, x.world.book.add (.notified (.finished o))⟩ := by
  rw [complete, World.completed, World.notify, Notebook.notify]
  cases x.world.listener.panic? (.finished o) <;> rfl

theorem closet_fails (x : Pass) (name : String) (site : Location) (failure : Failure) :
    (x.fails name site failure).state.closet = ⟨x.shelf, x.world.book.add
      (.notified (.finished ⟨⟨x.visit.context, name, site⟩, .failed failure⟩))⟩ := by
  rw [← closet_complete, fails]
  rcases x.complete ⟨⟨x.visit.context, name, site⟩, .failed failure⟩ with ⟨_ | _ | _, z⟩ <;> rfl

theorem closet_leaveFinished (x : Pass) (name : String) (v : Visit) :
    (x.leaveFinished name v).closet = x.closet := by
  rw [leaveFinished]
  split <;> rfl

theorem leavesStocked_complete (x : Pass) (o : Outcome) : x.LeavesStocked (x.complete o).state := by
  rw [LeavesStocked, closet_complete]
  exact x.closet.leavesStocked_add rfl rfl rfl

theorem leavesStocked_claim (x : Pass) (name : String) : x.LeavesStocked (x.claim name).state := by
  rw [claim]
  split
  · exact leavesStocked_of_eq rfl rfl
  · exact leavesStocked_of_eq rfl rfl

theorem leavesStocked_declareTest (x : Pass) (name : String) (site : Location) (body : Body) :
    x.LeavesStocked (x.declareTest s name site body).state := by
  refine Ran.andThen_rel LeavesStocked LeavesStocked.trans (leavesStocked_claim x name) fun y => ?_
  split
  · exact leavesStocked_of_eq rfl rfl
  · dsimp only
    split
    · exact Closet.leavesStocked_of_notes rfl (World.notes_schedule _ _)
    · exact Closet.leavesStocked_of_notes rfl (Notebook.notes_of_eq rfl rfl)

theorem leavesStocked_declarePending (x : Pass) (name : String) (site : Location) :
    x.LeavesStocked (x.declarePending name site).state := by
  refine Ran.andThen_rel LeavesStocked LeavesStocked.trans (leavesStocked_claim x name) fun y => ?_
  split
  · exact leavesStocked_of_eq rfl rfl
  · have hy : y.LeavesStocked (y.process name) := leavesStocked_of_eq rfl rfl
    exact hy.trans (leavesStocked_complete _ _)

theorem leavesStocked_outside {name : String} {site : Location} {r : Ran BuildError Pass}
    (hr : x.enter? s name site = .inl r) : x.LeavesStocked r.state := by
  have hc := leavesStocked_claim x name
  rw [enter?] at hr
  dsimp only at hr
  split at hr
  · split at hr
    · cases hr
      exact hc
    · split at hr
      · cases hr
        exact hc.trans (leavesStocked_of_eq rfl rfl)
      · cases hr
  · cases hr
    exact hc

/-- A sub-context is entered with the shelf as it is. -/
theorem closet_entered {name : String} {site : Location} (hy : x.enter? s name site = .inr y) :
    y.closet = ⟨x.shelf, x.world.book.add
      (.entered s.root.index (x.visit.context.path ++ [name]))⟩ := by
  have hpath := (entered_eq hy).1
  obtain ⟨hname, hp, hran⟩ := of_entered hy
  rw [enter?_new hname hp hran] at hy
  cases hy
  rw [← hpath]
  rfl

/-- A sub-context is left: if it failed before a direct test was met, what its builder left is
closed. -/
theorem leavesStocked_leave {name : String} {site : Location} {r : Ran BuildError Pass}
    (hy : x.enter? s name site = .inr y) (h : y.LeavesStocked r.state) :
    x.LeavesStocked (leave (x.parentVisit name) name site y.shelf.mark r).state := by
  have hentered := closet_entered hy
  have hshelf : y.shelf = x.shelf := congrArg Closet.shelf hentered
  have hx : x.LeavesStocked y := by
    rw [LeavesStocked, hentered]
    exact x.closet.leavesStocked_add rfl rfl rfl
  have hfailed : ∀ failure, x.LeavesStocked
      (leaveFailed name site y.shelf.mark failure (r.state.within (x.parentVisit name))).state := by
    intro failure
    by_cases hd : (r.state.within (x.parentVisit name)).search.direct.isSome = true
    · rw [leaveFailed_owned hd, LeavesStocked, closet_fails]
      have hr : x.closet.LeavesStocked r.state.closet := hx.trans h
      exact hr.trans (r.state.closet.leavesStocked_add rfl rfl rfl)
    · rw [leaveFailed_swept hd, LeavesStocked, closet_fails]
      rw [LeavesStocked, hentered] at h
      rw [hshelf]
      let o : Outcome := ⟨⟨x.visit.context, name, site⟩, .failed
        (failure.withTeardown (r.state.world.book.sweep (r.state.shelf.since x.shelf.mark)).1)⟩
      exact Closet.LeavesStocked.failed (c := x.closet) (o := o) h
  rw [leave]
  rcases r.ending with _ | (e | c) | p
  · show x.LeavesStocked ((r.state.within (x.parentVisit name)).leaveFinished name r.state.visit)
    rw [LeavesStocked, closet_leaveFinished]
    exact hx.trans h
  · exact hx.trans h
  · exact hfailed _
  · exact hfailed _

end Pass

/-- **A visit closes callbacks of contexts that fail, when these fail, and no others.** -/
theorem Builder.visit_leavesStocked {s : PassScope} (b : Builder) :
    ∀ x : Pass, x.LeavesStocked (b.visit s x).state := by
  induction b with
  | done => intro x; exact x.leavesStocked_refl
  | basic b next ih =>
    intro x
    refine Ran.andThen_rel Pass.LeavesStocked Pass.LeavesStocked.trans ?_ ih
    rw [x.state_perform]
    exact Closet.leavesStocked_of_notes rfl (x.world.book.perform_notes s.scope none b)
  | branch c yes no next ihy ihn ih =>
    intro x
    rw [visit]
    split
    · exact Ran.andThen_rel Pass.LeavesStocked Pass.LeavesStocked.trans (ihy x) ih
    · exact Ran.andThen_rel Pass.LeavesStocked Pass.LeavesStocked.trans (ihn x) ih
  | autoClose r close next ih =>
    intro x
    have hx : x.LeavesStocked (x.withCloset (x.closet.autoClose r ⟨close, s.scope⟩)) :=
      (x.closet.stocks_register _ _ _).leavesStocked
    exact hx.trans (ih _)
  | deferClose close next ih =>
    intro x
    have hx : x.LeavesStocked (x.withCloset (x.closet.deferClose ⟨close, s.scope⟩)) :=
      (x.closet.stocks_register _ _ _).leavesStocked
    exact hx.trans (ih _)
  | test name site body swallow next ih =>
    intro x
    refine Ran.andThen_rel Pass.LeavesStocked Pass.LeavesStocked.trans ?_ ih
    rw [Ran.state_swallowing]
    exact x.leavesStocked_declareTest name site body
  | context name site inner swallow next ihi ih =>
    intro x
    refine Ran.andThen_rel Pass.LeavesStocked Pass.LeavesStocked.trans ?_ ih
    rw [Ran.state_swallowing]
    cases henter : x.enter? s name site with
    | inl r => exact Pass.leavesStocked_outside henter
    | inr y => exact Pass.leavesStocked_leave henter (ihi y)
  | pending name site swallow next ih =>
    intro x
    refine Ran.andThen_rel Pass.LeavesStocked Pass.LeavesStocked.trans ?_ ih
    rw [Ran.state_swallowing]
    exact x.leavesStocked_declarePending name site
  | afterSuite callback next ih =>
    intro x
    have hx : x.LeavesStocked (x.declareAfterSuite s callback) := by
      rw [Pass.declareAfterSuite]
      split
      · exact Pass.leavesStocked_of_eq rfl rfl
      · exact x.leavesStocked_refl
    exact hx.trans (ih _)
  | logCurrent next ih =>
    intro x
    have hx : x.LeavesStocked (x.withCloset ⟨x.shelf, x.world.book.say s.scope.root
        ("current " ++ x.visit.context.display)⟩) :=
      Closet.leavesStocked_of_notes rfl (x.world.book.notes_add rfl rfl rfl)
    exact hx.trans (ih _)

/-! ### Cells of a pass -/

/-- What a pass puts into the cell of a handle that it makes. -/
inductive Handle.Dealt (s : PassScope) (h : Handle) : Cell TestUnit Outcome → Prop
  /-- A pending test, or a context that failed. -/
  | given {result : TestResult} (hr : result = .pending ∨ ∃ f, result = .failed f) :
      Dealt s h (.done ⟨h.test, result⟩)
  | replayed : Dealt s h (.suspended (.replayed h.test s.root))
  | direct (body : Body) : Dealt s h (.suspended (.direct h.test body s.scope s.shelf))

/-- The outcome that is in a cell. -/
def Cell.outcome? : Cell TestUnit Outcome → Option Outcome
  | done o => some o
  | _ => none

/-- New cells go side by side with the handles that are numbered for them. -/
theorem World.cells_eq_of_numbered {v w : World} {hs : List Handle}
    {cs : List (Cell TestUnit Outcome)} (hc : w.cells = v.cells ++ cs)
    (hn : hs.map Handle.cell = List.range' v.cells.length hs.length)
    (hlength : hs.length = cs.length) : cs = hs.map fun h => w.cell h.cell := by
  have hcell : ∀ i, w.cell i = (v.cells ++ cs)[i]?.getD .discarded := by
    intro i
    rw [cell, hc]
  have hmap : (hs.map fun h => w.cell h.cell)
      = (List.range' v.cells.length hs.length).map w.cell := by
    rw [← hn, List.map_map]
    rfl
  rw [hmap]
  refine List.ext_getElem (by rw [List.length_map, List.length_range', hlength]) fun i hi _ => ?_
  rw [List.getElem_map, List.getElem_range', hcell, Nat.one_mul,
    List.getElem?_append_right (Nat.le_add_right _ _), Nat.add_sub_cancel_left,
    List.getElem?_eq_getElem hi]
  rfl

/-- The pass `y` comes from `x` by making the handles `hs` with the cells `cs`. -/
structure Pass.DealsBy (s : PassScope) (x y : Pass) (hs : List Handle)
    (cs : List (Cell TestUnit Outcome)) : Prop where
  tests : y.search.tests = x.search.tests ++ hs
  cells : y.world.cells = x.world.cells ++ cs
  dealt : List.Forall₂ (Handle.Dealt s) hs cs
  listener : y.world.listener = x.world.listener
  /-- Either there is no new owner, or the direct test of the pass is one. -/
  direct : y.search.direct = x.search.direct ∧ (∀ c ∈ cs, c.shelf? = none) ∨
    ∃ h body, h ∈ hs ∧ y.search.direct = some h ∧
      y.world.cell h.cell = .suspended (.direct h.test body s.scope s.shelf)
  /-- The listener is told of the outcomes that are known. -/
  told : x.world.listener.Calm → ∃ es, x.world.book.Writes y.world.book es ∧
    finishedIn es = cs.filterMap Cell.outcome?

/-- The pass `y` comes from `x` by making handles. -/
def Pass.Deals (s : PassScope) (x y : Pass) : Prop :=
  ∃ hs cs, x.DealsBy s y hs cs

namespace Pass

variable {s : PassScope} {x y z : Pass}

theorem Deals.trans (h : x.Deals s y) (k : y.Deals s z) : x.Deals s z := by
  obtain ⟨hs, cs, h⟩ := h
  obtain ⟨ks, ds, k⟩ := k
  refine ⟨hs ++ ks, cs ++ ds, ?_, ?_, List.rel_append h.dealt k.dealt, k.listener.trans h.listener,
    ?_, ?_⟩
  · rw [k.tests, h.tests, List.append_assoc]
  · rw [k.cells, h.cells, List.append_assoc]
  · rcases k.direct with ⟨hkd, hkn⟩ | ⟨d, body, hd, hkd, hcell⟩
    · rcases h.direct with ⟨hhd, hhn⟩ | ⟨d, body, hd, hhd, hcell⟩
      · exact .inl ⟨hkd.trans hhd, fun c hc => (List.mem_append.mp hc).elim (hhn c) (hkn c)⟩
      · refine .inr ⟨d, body, List.mem_append_left _ hd, hkd.trans hhd, ?_⟩
        rw [World.cell_of_isPrefix ⟨ds, k.cells.symm⟩ (World.lt_of_suspended hcell), hcell]
    · exact .inr ⟨d, body, List.mem_append_right _ hd, hkd, hcell⟩
  · intro hx
    obtain ⟨es, hw, he⟩ := h.told hx
    obtain ⟨fs, kw, kf⟩ := k.told (h.listener ▸ hx)
    exact ⟨es ++ fs, hw.trans kw, by rw [finishedIn_append, he, kf, List.filterMap_append]⟩

/-- A step that makes no handle. -/
theorem deals_still (ht : y.search.tests = x.search.tests) (hd : y.search.direct = x.search.direct)
    (hc : y.world.cells = x.world.cells) (hl : y.world.listener = x.world.listener)
    (hb : ∃ es, x.world.book.Writes y.world.book es ∧ finishedIn es = []) : x.Deals s y :=
  ⟨[], [], by rw [ht, List.append_nil], by rw [hc, List.append_nil], .nil, hl,
    .inl ⟨hd, fun _ hc => absurd hc List.not_mem_nil⟩, fun _ => hb⟩

theorem deals_of_eq (ht : y.search.tests = x.search.tests) (hd : y.search.direct = x.search.direct)
    (hw : y.world = x.world) : x.Deals s y :=
  deals_still ht hd (congrArg _ hw) (congrArg _ hw)
    ⟨[], by rw [hw]; exact x.world.book.writes_refl, rfl⟩

theorem deals_notes {n : Notebook} (hn : x.world.book.Notes n) {shelf : Shelf Closure} :
    x.Deals s { x with shelf, world := { x.world with book := n } } := by
  obtain ⟨es, hw, hp⟩ := hn
  exact deals_still rfl rfl rfl rfl ⟨es, hw, hp.finished⟩

/-- A handle whose unit owns no shelf. -/
theorem deals_replayed (x : Pass) (d : Description) :
    x.Deals s ({ x with world := (x.world.schedule (.replayed d s.root)).2 }.addTest
      (x.world.schedule (.replayed d s.root)).1) := by
  have hnotes := x.world.notes_schedule (.replayed d s.root)
  obtain ⟨es, hw, hp⟩ := hnotes
  refine ⟨[_], [.suspended (.replayed d s.root)], rfl, World.cells_schedule _ _,
    .cons .replayed .nil,
    (World.makes_schedule _ _).listener, .inl ⟨rfl, fun c hc => ?_⟩, fun _ => ⟨es, hw, hp.finished⟩⟩
  rw [List.mem_singleton.mp hc]
  rfl

/-- The direct test of the pass. -/
theorem deals_direct (x : Pass) (d : Description) (body : Body) :
    let u : TestUnit := .direct d body s.scope s.shelf
    x.Deals s ({ x with
      world := (x.world.scheduleSuspended u).2
      search := { x.search with direct := some (x.world.scheduleSuspended u).1 } }.addTest
        (x.world.scheduleSuspended u).1) := by
  intro u
  refine ⟨[⟨d, x.world.cells.length⟩], [.suspended u], rfl, rfl, .cons (.direct body) .nil, rfl,
    .inr ⟨⟨d, x.world.cells.length⟩, body, List.mem_cons_self, rfl, ?_⟩,
    fun _ => ⟨[], Notebook.writes_nil rfl rfl, rfl⟩⟩
  show (x.world.cells ++ [.suspended u])[x.world.cells.length]?.getD .discarded = _
  rw [List.getElem?_concat_length]
  rfl

/-- A handle for a known outcome. -/
theorem deals_complete (x : Pass) {o : Outcome}
    (ho : o.result = .pending ∨ ∃ f, o.result = .failed f) : x.Deals s (x.complete o).state := by
  have hw := x.world.book.writes_add (e := .notified (.finished o)) rfl rfl
  rw [complete, World.completed, World.notify, Notebook.notify]
  cases hp : x.world.listener.panic? (.finished o) with
  | some p =>
    -- the listener was told of something that there is no handle for
    refine ⟨[], [], (List.append_nil _).symm, (List.append_nil _).symm, .nil, rfl,
      .inl ⟨rfl, fun _ hc => absurd hc List.not_mem_nil⟩, fun hx => ?_⟩
    rw [hx] at hp
    cases hp
  | none =>
    refine ⟨[⟨o.test, x.world.cells.length⟩], [.done o], rfl, rfl, .cons (.given ho) .nil, rfl,
      .inl ⟨rfl, fun c hc => ?_⟩, fun _ => ⟨_, hw, rfl⟩⟩
    rw [List.mem_singleton.mp hc]
    rfl

theorem deals_claim (x : Pass) (name : String) : x.Deals s (x.claim name).state := by
  rw [claim]
  split
  · exact deals_of_eq rfl rfl rfl
  · exact deals_of_eq rfl rfl rfl

theorem deals_declareTest (x : Pass) (name : String) (site : Location) (body : Body) :
    x.Deals s (x.declareTest s name site body).state := by
  refine Ran.andThen_rel (Deals s) Deals.trans (deals_claim x name) fun y => ?_
  split
  · exact deals_of_eq rfl rfl rfl
  · have hy : y.Deals s (y.process name) := deals_of_eq rfl rfl rfl
    dsimp only
    split
    · exact hy.trans ((y.process name).deals_replayed _)
    · have hran : (y.process name).Deals s
          ((y.process name).within { (y.process name).visit with ran := true }) :=
        deals_of_eq rfl rfl rfl
      exact (hy.trans hran).trans (deals_direct _ ⟨y.visit.context, name, site⟩ body)

theorem deals_declarePending (x : Pass) (name : String) (site : Location) :
    x.Deals s (x.declarePending name site).state := by
  refine Ran.andThen_rel (Deals s) Deals.trans (deals_claim x name) fun y => ?_
  split
  · exact deals_of_eq rfl rfl rfl
  · have hy : y.Deals s (y.process name) := deals_of_eq rfl rfl rfl
    exact hy.trans (deals_complete _ (.inl rfl))

theorem deals_enter {name : String} {site : Location} (h : x.enter? s name site = .inr y) :
    x.Deals s y := by
  have hnotes : x.world.book.Notes _ := x.world.book.notes_add (e := .entered s.root.index
    (x.search.intern (x.place name) site).1.path) rfl rfl rfl
  obtain ⟨es, hw, hp⟩ := hnotes
  obtain ⟨hname, hpr, hran⟩ := of_entered h
  rw [enter?_new hname hpr hran] at h
  cases h
  obtain ⟨_, hi⟩ := x.search.intern_entered (x.place name) site
  have ht := congrArg Search.tests hi
  have hd := congrArg Search.direct hi
  exact deals_still ht hd rfl rfl ⟨es, hw, hp.finished⟩

theorem deals_fails (x : Pass) (name : String) (site : Location) (failure : Failure) :
    x.Deals s (x.fails name site failure).state :=
  Ran.andThen_rel (Deals s) Deals.trans (deals_complete x (.inr ⟨_, rfl⟩)) fun _ =>
    deals_of_eq rfl rfl rfl

theorem deals_leaveFailed (x : Pass) (name : String) (site : Location) (mark : Nat)
    (failure : Failure) : x.Deals s (leaveFailed name site mark failure x).state := by
  by_cases hd : x.search.direct.isSome = true
  · rw [leaveFailed_owned hd]
    exact deals_fails _ _ _ _
  · rw [leaveFailed_swept hd]
    obtain ⟨cs, hw, hc⟩ := x.world.book.sweep_writes (x.shelf.since mark)
    have hswept : x.Deals s (x.swept mark) := deals_still rfl rfl rfl rfl ⟨cs, hw, hc.finished⟩
    exact hswept.trans (deals_fails _ _ _ _)

theorem deals_visitRelation (s : PassScope) : VisitRelation s (Deals s) where
  refl x := deals_of_eq rfl rfl rfl
  trans := Deals.trans
  visit x v := deals_of_eq rfl rfl rfl
  perform x b := by
    rw [state_perform]
    exact deals_notes (x.world.book.perform_notes _ _ b)
  register x label res close := by
    obtain ⟨es, hstores⟩ := x.closet.stocks_register label res close
    exact deals_still rfl rfl rfl rfl ⟨es, hstores.writes, hstores.finished⟩
  claim := deals_claim
  declareTest := deals_declareTest
  declarePending := deals_declarePending
  declareAfterSuite x callback := by
    rw [declareAfterSuite]
    split
    · exact deals_of_eq rfl rfl rfl
    · exact deals_of_eq rfl rfl rfl
  say x line := deals_notes (x.world.book.notes_add rfl rfl rfl)
  enter := deals_enter
  leaveFinished x name v := by
    rw [leaveFinished]
    split
    · exact deals_of_eq rfl rfl rfl
    · exact deals_of_eq rfl rfl rfl
  leaveFailed := deals_leaveFailed

end Pass

/-- **A visit makes handles of three kinds**, and the listener is told of those whose outcome is
known. -/
theorem Builder.visit_deals (s : PassScope) (b : Builder) (x : Pass) :
    x.Deals s (b.visit s x).state :=
  b.visit_rel (Pass.deals_visitRelation s) x

/-! ### The owner of the shelf -/

namespace Pass

/-- How a part of a visit that discards no structural error leaves the owners: the shelf of the pass
has at most one, and none unless a test was met. -/
structure Sole (s : PassScope) (r : Ran BuildError Pass) : Prop where
  owned : r.state.world.Owned (s.shelf + 1)
  met : r.ending = .finished → s.shelf ∈ r.state.world.owners → r.state.visit.ran = true

variable {s : PassScope} {x y : Pass} {r : Ran BuildError Pass}

theorem Sole.keep (h : Sole s ⟨.finished, x⟩) (ho : r.state.world.owners = x.world.owners)
    (hr : r.state.visit.ran = x.visit.ran) : Sole s r := by
  refine ⟨h.owned.congr ho, fun _ hs => ?_⟩
  rw [ho] at hs
  rw [hr]
  exact h.met rfl hs

theorem sole_declareTest (h : Sole s ⟨.finished, x⟩) (name : String) (site : Location)
    (body : Body) : Sole s (x.declareTest s name site body) := by
  by_cases hname : name ∈ x.visit.names
  · rw [declareTest_taken hname]
    exact h.keep rfl rfl
  by_cases hp : x.isProcessed name = true
  · rw [declareTest_processed hname hp]
    exact h.keep rfl rfl
  by_cases hran : x.visit.ran = true
  · rw [declareTest_replayed hname hp hran]
    refine h.keep ?_ rfl
    exact (World.owners_append (World.cells_schedule _ _)).trans (List.append_nil _)
  · rw [declareTest_direct hname hp hran]
    -- no test was met in this pass, so the shelf has no owner yet
    have hnew : s.shelf ∉ x.world.owners := fun hs => hran (h.met rfl hs)
    have ho : (x.world.scheduleSuspended (.direct ⟨x.visit.context, name, site⟩ body s.scope
        s.shelf)).2.owners = x.world.owners ++ [s.shelf] :=
      World.owners_append
        (c := .suspended (.direct ⟨x.visit.context, name, site⟩ body s.scope s.shelf)) rfl
    exact ⟨h.owned.add hnew ho, fun _ _ => rfl⟩

theorem sole_declarePending (h : Sole s ⟨.finished, x⟩) (name : String) (site : Location) :
    Sole s (x.declarePending name site) := by
  by_cases hname : name ∈ x.visit.names
  · rw [declarePending_taken hname]
    exact h.keep rfl rfl
  by_cases hp : x.isProcessed name = true
  · rw [declarePending_processed hname hp]
    exact h.keep rfl rfl
  · rw [declarePending_new hname hp]
    obtain ⟨-, ho, hv, -⟩ := complete_keeps ((x.within (x.parentVisit name)).process name)
      ⟨⟨x.visit.context, name, site⟩, .pending⟩
    have hran := congrArg Visit.ran hv
    exact h.keep ho hran

/-- Leaving a context: an owner that was found inside is a test that was met. -/
theorem sole_leave (h : Sole s r) (parent : Visit) (name : String) (site : Location) (mark : Nat) :
    Sole s (leave parent name site mark r) := by
  have hfailed : ∀ failure, Sole s (leaveFailed name site mark failure (r.state.within parent)) := by
    intro failure
    obtain ⟨-, ho, hran, -⟩ := leaveFailed_keeps (r.state.within parent) name site mark failure
    exact ⟨h.owned.congr ho, fun he _ => hran he⟩
  rw [leave]
  rcases hr : r.ending with _ | (e | c) | p
  · have ho : ((r.state.within parent).leaveFinished name r.state.visit).world.owners
        = r.state.world.owners :=
      congrArg World.owners (world_leaveFinished (r.state.within parent) name r.state.visit)
    refine ⟨h.owned.congr ho, fun _ hs => ?_⟩
    have hran : r.state.visit.ran = true := by
      refine h.met hr ?_
      rw [← ho]
      exact hs
    show ((r.state.within parent).leaveFinished name r.state.visit).visit.ran = true
    rw [visit_leaveFinished, hran, Bool.or_true]
  · exact ⟨h.owned.congr rfl, by rintro ⟨⟩⟩
  · exact hfailed _
  · exact hfailed _

theorem sole_visitProperty (s : PassScope) : VisitProperty s (Sole s) where
  perform {x} b h :=
    have hstate := x.state_perform s.scope b
    h.keep (congrArg (·.world.owners) hstate) (congrArg (·.visit.ran) hstate)
  register _ _ _ h := h.keep rfl rfl
  say _ h := h.keep rfl rfl
  declareTest name site body h := sole_declareTest h name site body
  declarePending name site h := sole_declarePending h name site
  declareAfterSuite callback h := by
    rw [declareAfterSuite]
    split
    · exact h.keep rfl rfl
    · exact h
  outside hr h := by
    rcases outside_cases hr with ⟨_, rfl⟩ | ⟨-, -, hworld, hran⟩
    · exact h.keep rfl rfl
    · exact h.keep (congrArg World.owners hworld) hran
  inside {x name site y} hy h := by
    -- a context is entered only if no test was met before it, and so the shelf has no owner yet
    obtain ⟨hname, hp, hran⟩ := of_entered hy
    rw [enter?_new hname hp hran] at hy
    cases hy
    exact ⟨h.owned.congr rfl, fun _ hs => absurd (h.met rfl hs) hran⟩
  leave parent name site mark h := sole_leave h parent name site mark

end Pass

/-- **A visit that discards no structural error gives the shelf of its pass at most one owner.** -/
theorem Builder.visit_sole {s : PassScope} (b : Builder) {x : Pass}
    (h : Pass.Sole s ⟨.finished, x⟩) (hk : ∀ e, .discarded e ∉ b.history s x) :
    Pass.Sole s (b.visit s x) :=
  b.visit_property (Pass.sole_visitProperty s) h hk

/-! ### Passes -/

namespace RootContext

variable {r : RootContext} {search : Search} {w : World}

/-- A pass over the builder of `r` made the handles `hs` with the cells `cs`, and wrote `es`. -/
structure Yields (r : RootContext) (search : Search) (w : World) (e : PassEnd) (hs : List Handle)
    (cs : List (Cell TestUnit Outcome)) (es : List Event) : Prop where
  tests : e.search.tests = search.tests ++ hs
  numbered : hs.map Handle.cell = List.range' w.cells.length hs.length
  cells : e.world.cells = w.cells ++ cs
  shelf : e.shelf = w.shelves.length
  shelves : e.world.shelves = w.shelves ++ [e.world.shelf e.shelf]
  listener : e.world.listener = w.listener
  dealt : List.Forall₂ (Handle.Dealt ⟨r, ⟨r.index, w.book.invocations⟩, e.shelf⟩) hs cs
  /-- Either the shelf of the pass has no owner, or the direct test owns it. -/
  direct : e.direct = none ∧ (∀ c ∈ cs, c.shelf? = none) ∨ ∃ h body, h ∈ hs ∧ e.direct = some h ∧
    e.world.cell h.cell = .suspended (.direct h.test body ⟨r.index, w.book.invocations⟩ e.shelf)
  writes : w.book.Writes e.world.book es
  stocked : Stocked es (e.world.shelf e.shelf).serials
  told : w.listener.Calm → finishedIn es = cs.filterMap Cell.outcome?

/-- **What a pass yields.** -/
theorem runPass_yields (r : RootContext) (search : Search) (w : World)
    (hd : search.direct = none) :
    ∃ hs cs es, r.Yields search w (r.runPass search w) hs cs es := by
  let s : PassScope := ⟨r, ⟨r.index, w.book.invocations⟩, w.shelves.length⟩
  obtain ⟨hs, cs, hdeals⟩ := r.builder.visit_deals s (r.opened search w)
  obtain ⟨es, more, hw, hshelf, hst⟩ := r.builder.visit_leavesStocked (s := s) (r.opened search w)
  have hshelves : (r.runPass search w).world.shelves
      = w.shelves ++ [(r.builder.visit s (r.opened search w)).state.shelf] :=
    r.shelves_visit search w s r.builder
  have hown : (r.runPass search w).world.shelf w.shelves.length
      = (r.builder.visit s (r.opened search w)).state.shelf := by
    rw [World.shelf, hshelves, List.getElem?_concat_length]
    rfl
  have hopened :
      w.book.Writes (r.opened search w).world.book [.entered r.index r.context.path] := by
    obtain ⟨ha, hn, hs⟩ := w.book.writes_add (e := .entered r.index r.context.path) rfl rfl
    exact ⟨ha, hn, hs⟩
  have hentered : Stocked [.entered r.index r.context.path] [] := .event rfl rfl
  have hmore : (r.builder.visit s (r.opened search w)).state.shelf = more :=
    hshelf.trans (List.append_nil more)
  have hwrites : w.book.Writes (r.runPass search w).world.book
      ([.entered r.index r.context.path] ++ es) := hopened.trans hw
  have hnumbered : hs.map Handle.cell = List.range' w.cells.length hs.length := by
    obtain ⟨ks, hks, hadds, -⟩ := r.runPass_adds search w hd
    obtain rfl : hs = ks := List.append_cancel_left (hdeals.tests.symm.trans hks)
    exact hadds.handles
  refine ⟨hs, cs, _, hdeals.tests, hnumbered, hdeals.cells, rfl, ?_, hdeals.listener, hdeals.dealt,
    ?_, hwrites, ?_,
    fun hcalm => ?_⟩
  · rw [hshelves]
    exact congrArg (fun l => w.shelves ++ [l]) hown.symm
  · rcases hdeals.direct with ⟨hnone, hc⟩ | ⟨h, body, hh, hsome, hc⟩
    · exact .inl ⟨hnone.trans hd, hc⟩
    · exact .inr ⟨h, body, hh, hsome, hc⟩
  · have hall := hentered.append hst
    rw [List.append_nil] at hall
    rw [show (r.runPass search w).world.shelf (r.runPass search w).shelf = _ from hown, hmore]
    exact hall
  · obtain ⟨fs, hfs, htold⟩ := hdeals.told hcalm
    obtain rfl := hw.unique hfs
    rw [finishedIn_append, htold]
    rfl

/-- A pass that discards no structural error gives its shelf at most one owner. -/
theorem owned_runPass (hw : w.Owned w.shelves.length) (hk : ∀ e, .discarded e ∉ r.marks search w) :
    (r.runPass search w).world.Owned (w.shelves.length + 1) := by
  have hopened : Pass.Sole ⟨r, ⟨r.index, w.book.invocations⟩, w.shelves.length⟩
      ⟨.finished, r.opened search w⟩ :=
    ⟨(hw.mono (Nat.le_succ _)).congr rfl, fun _ hs => absurd (hw.lt _ hs) (Nat.lt_irrefl _)⟩
  exact (r.builder.visit_sole hopened hk).owned.congr rfl

end RootContext

end TestTree
