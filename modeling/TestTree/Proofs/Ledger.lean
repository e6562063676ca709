/-
The ledger of close callbacks: what a part of a run registers, and what it closes.

* `registeredIn`, `closedIn`, `finishedIn` : callbacks registered, callbacks closed and outcomes
  told in a list of events;
* `Notebook.Writes` : what was written into a notebook between two moments;
* `Notebook.sweep_writes` : a sweep closes its callbacks, in their order, and registers none;
* `Body.run_stocks`, `Builder.replay_stocks` : bodies and replays put what they register on the
  shelf, newest first, and close nothing;
* `World.walked`, `World.runUnit_walked` : a unit closes what it owns when its script has ended.

## Design notes

Notebooks keep their events newest first; a list of events between two moments is written here in
the order in which they happened, without diagnostics.  Callbacks are known by their serial numbers,
which are given in the order of registration.
-/
import TestTree.Proofs.Uses

namespace TestTree

/-! ### Events -/

/-- The callback that an event registers. -/
def Event.registered? : Event → Option Nat
  | registered k => some k
  | _ => none

/-- The callback that an event closes. -/
def Event.closed? : Event → Option Nat
  | closed k => some k
  | _ => none

/-- The outcome that an event tells the listener of. -/
def Event.finished? : Event → Option Outcome
  | notified (.finished o) => some o
  | _ => none

/-- The callbacks that are registered. -/
def registeredIn (es : List Event) : List Nat :=
  es.filterMap Event.registered?

/-- The callbacks that are closed. -/
def closedIn (es : List Event) : List Nat :=
  es.filterMap Event.closed?

/-- The outcomes that the listener is told. -/
def finishedIn (es : List Event) : List Outcome :=
  es.filterMap Event.finished?

section Append

variable (es fs : List Event) (e : Event)

@[simp] theorem registeredIn_append :
    registeredIn (es ++ fs) = registeredIn es ++ registeredIn fs :=
  List.filterMap_append

@[simp] theorem closedIn_append : closedIn (es ++ fs) = closedIn es ++ closedIn fs :=
  List.filterMap_append

@[simp] theorem finishedIn_append : finishedIn (es ++ fs) = finishedIn es ++ finishedIn fs :=
  List.filterMap_append

@[simp] theorem registeredIn_cons :
    registeredIn (e :: es) = e.registered?.toList ++ registeredIn es := by
  cases h : e.registered? <;> simp [registeredIn, h]

@[simp] theorem closedIn_cons : closedIn (e :: es) = e.closed?.toList ++ closedIn es := by
  cases h : e.closed? <;> simp [closedIn, h]

@[simp] theorem finishedIn_cons : finishedIn (e :: es) = e.finished?.toList ++ finishedIn es := by
  cases h : e.finished? <;> simp [finishedIn, h]

@[simp] theorem registeredIn_nil : registeredIn [] = [] := rfl

@[simp] theorem closedIn_nil : closedIn [] = [] := rfl

@[simp] theorem finishedIn_nil : finishedIn [] = [] := rfl

end Append

/-- Nothing is registered or closed, and no test is finished. -/
structure Plain (es : List Event) : Prop where
  registered : registeredIn es = []
  closed : closedIn es = []
  finished : finishedIn es = []

theorem plain_nil : Plain [] :=
  ⟨rfl, rfl, rfl⟩

theorem Plain.append {es fs : List Event} (h : Plain es) (k : Plain fs) : Plain (es ++ fs) := by
  constructor
  · rw [registeredIn_append, h.registered, k.registered, List.append_nil]
  · rw [closedIn_append, h.closed, k.closed, List.append_nil]
  · rw [finishedIn_append, h.finished, k.finished, List.append_nil]

/-! ### Notebooks -/

/-- Between `n` and `m` the events `es` were written, besides diagnostics; callbacks were numbered
in the order in which they were registered. -/
structure Notebook.Writes (n m : Notebook) (es : List Event) : Prop where
  acts : m.acts = es.reverse ++ n.acts
  numbers : registeredIn es = List.range' n.serials (registeredIn es).length
  serials : m.serials = n.serials + (registeredIn es).length

namespace Notebook

variable {n m k : Notebook} {es fs : List Event}

theorem acts_add (n : Notebook) (e : Event) :
    (n.add e).acts = (if e.isAct then [e] else []) ++ n.acts := by
  cases h : e.isAct <;> simp [acts, add, h]

theorem Writes.trans (h : n.Writes m es) (l : m.Writes k fs) : n.Writes k (es ++ fs) where
  acts := by rw [l.acts, h.acts, List.reverse_append, List.append_assoc]
  numbers := by
    rw [registeredIn_append, List.length_append, ← List.range'_append_1, ← h.numbers, ← h.serials,
      ← l.numbers]
  serials := by rw [registeredIn_append, List.length_append, l.serials, h.serials, Nat.add_assoc]

/-- What was written is determined by the two notebooks. -/
theorem Writes.unique (h : n.Writes m es) (l : n.Writes m fs) : es = fs :=
  List.reverse_injective (List.append_cancel_right (h.acts.symm.trans l.acts))

theorem writes_nil (h : m.acts = n.acts) (hs : m.serials = n.serials) : n.Writes m [] :=
  ⟨h, rfl, hs⟩

theorem writes_refl (n : Notebook) : n.Writes n [] :=
  writes_nil rfl rfl

/-- An event that registers nothing. -/
theorem writes_add (n : Notebook) {e : Event} (ha : e.isAct = true) (hr : e.registered? = none) :
    n.Writes (n.add e) [e] := by
  have hregistered : registeredIn [e] = [] := by simp [hr]
  refine ⟨by rw [acts_add, ha]; rfl, ?_, ?_⟩
  · rw [hregistered]
    rfl
  · rw [hregistered]
    rfl

/-- Only plain events were written. -/
def Notes (n m : Notebook) : Prop :=
  ∃ es, n.Writes m es ∧ Plain es

theorem Notes.trans (h : n.Notes m) (l : m.Notes k) : n.Notes k := by
  obtain ⟨es, hw, hp⟩ := h
  obtain ⟨fs, lw, lp⟩ := l
  exact ⟨es ++ fs, hw.trans lw, hp.append lp⟩

theorem notes_of_eq (h : m.acts = n.acts) (hs : m.serials = n.serials) : n.Notes m :=
  ⟨[], writes_nil h hs, plain_nil⟩

theorem notes_refl (n : Notebook) : n.Notes n :=
  notes_of_eq rfl rfl

theorem notes_add (n : Notebook) {e : Event} (hr : e.registered? = none) (hc : e.closed? = none)
    (hf : e.finished? = none) : n.Notes (n.add e) := by
  cases ha : e.isAct with
  | true => exact ⟨[e], n.writes_add ha hr, by simp [hr], by simp [hc], by simp [hf]⟩
  | false => exact notes_of_eq (by rw [acts_add, ha]; rfl) rfl

theorem perform_notes (n : Notebook) (s : Scope) (res : Option String) (b : Basic) :
    n.Notes (n.perform s res b).state := by
  cases b with
  | log text => exact n.notes_add rfl rfl rfl
  | logVar name => exact n.notes_add rfl rfl rfl
  | incr name => exact notes_of_eq rfl rfl
  | logResource => exact n.notes_add rfl rfl rfl
  | fail e => exact notes_of_eq rfl rfl
  | panic p => exact notes_of_eq rfl rfl

end Notebook

/-- Callbacks register nothing and close nothing. -/
theorem Callback.run_notes (c : Callback) (s : Scope) (res : Option String) :
    ∀ n : Notebook, n.Notes (c.run s res n).state := by
  induction c with
  | done => intro n; exact n.notes_refl
  | basic b next ih =>
    intro n
    exact Ran.andThen_rel Notebook.Notes Notebook.Notes.trans (n.perform_notes s res b) ih
  | branch c yes no next ihy ihn ih =>
    intro n
    rw [run]
    split
    · exact Ran.andThen_rel Notebook.Notes Notebook.Notes.trans (ihy n) ih
    · exact Ran.andThen_rel Notebook.Notes Notebook.Notes.trans (ihn n) ih

/-- The callbacks `ks` are closed in this order, and nothing is registered. -/
structure Closes (ks : List Nat) (es : List Event) : Prop where
  closed : closedIn es = ks
  registered : registeredIn es = []
  finished : finishedIn es = []

theorem Plain.closes {es : List Event} (h : Plain es) : Closes [] es :=
  ⟨h.closed, h.registered, h.finished⟩

theorem Closes.append {ks ls : List Nat} {es fs : List Event} (h : Closes ks es)
    (k : Closes ls fs) :
    Closes (ks ++ ls) (es ++ fs) := by
  constructor
  · rw [closedIn_append, h.closed, k.closed]
  · rw [registeredIn_append, h.registered, k.registered, List.append_nil]
  · rw [finishedIn_append, h.finished, k.finished, List.append_nil]

/-- The serial numbers of the callbacks on a shelf, the latest first. -/
def Shelf.serials (s : Shelf Closure) : List Nat :=
  s.map Registration.serial

/-- **A sweep closes its callbacks in their order.** -/
theorem Notebook.sweep_writes (rs : List (Registration Closure)) :
    ∀ n : Notebook, ∃ es, n.Writes (n.sweep rs).2 es ∧ Closes (Shelf.serials rs) es := by
  induction rs with
  | nil => intro n; exact ⟨[], n.writes_refl, rfl, rfl, rfl⟩
  | cons r rest ih =>
    intro n
    -- the callback is counted as closed before it runs
    have hclosed := n.writes_add (e := .closed r.serial) rfl rfl
    obtain ⟨es, hrun, hplain⟩ :=
      r.close.script.run_notes r.close.scope r.resource (n.add (.closed r.serial))
    obtain ⟨fs, hrest, hcloses⟩ := ih (r.run n).state
    have hstate : (r.run n).state
        = (r.close.script.run r.close.scope r.resource (n.add (.closed r.serial))).state :=
      Ran.state_mapError _ _
    rw [hstate] at hrest
    refine ⟨[.closed r.serial] ++ (es ++ fs), hclosed.trans (hrun.trans ?_), ?_⟩
    · show Writes _ ((r.run n).state.sweep rest).2 fs
      rw [hstate]
      exact hrest
    · have hfirst : Closes [r.serial] [.closed r.serial] := ⟨rfl, rfl, rfl⟩
      exact hfirst.append (hplain.closes.append hcloses)

/-! ### Closets -/

/-- Between two moments a script wrote `es`: what it registered is on the shelf, newest first, and
nothing was closed. -/
structure Closet.Stores (c d : Closet Closure) (es : List Event) : Prop where
  writes : c.book.Writes d.book es
  shelf : ∃ more, d.shelf = more ++ c.shelf ∧ Shelf.serials more = (registeredIn es).reverse
  closed : closedIn es = []
  finished : finishedIn es = []

namespace Closet

variable {c d e : Closet Closure}

/-- A script that only puts what it registers on the shelf. -/
def Stocks (c d : Closet Closure) : Prop :=
  ∃ es, c.Stores d es

theorem Stocks.trans (h : c.Stocks d) (k : d.Stocks e) : c.Stocks e := by
  obtain ⟨es, hw, ⟨more, hs, hm⟩, hc, hf⟩ := h
  obtain ⟨fs, kw, ⟨more', ks, km⟩, kc, kf⟩ := k
  refine ⟨es ++ fs, hw.trans kw, ⟨more' ++ more, ?_, ?_⟩, ?_, ?_⟩
  · rw [ks, hs, List.append_assoc]
  · rw [Shelf.serials, List.map_append, registeredIn_append, List.reverse_append, ← hm, ← km]
    rfl
  · rw [closedIn_append, hc, kc, List.append_nil]
  · rw [finishedIn_append, hf, kf, List.append_nil]

theorem stocks_notes {n : Notebook} (h : c.book.Notes n) : c.Stocks { c with book := n } := by
  obtain ⟨es, hw, hp⟩ := h
  exact ⟨es, hw, ⟨[], rfl, by rw [hp.registered]; rfl⟩, hp.closed, hp.finished⟩

theorem stocks_refl (c : Closet Closure) : c.Stocks c :=
  stocks_notes c.book.notes_refl

theorem stocks_register (c : Closet Closure) (label : String) (res : Option String)
    (close : Closure) : c.Stocks (c.register label res close) :=
  ⟨[.registered c.book.serials], ⟨c.book.acts_add _, rfl, rfl⟩, ⟨[_], rfl, rfl⟩, rfl, rfl⟩

theorem stocks_perform (c : Closet Closure) (s : Scope) (res : Option String) (b : Basic) :
    c.Stocks (c.perform s res b).state :=
  stocks_notes (c.book.perform_notes s res b)

end Closet

open Closet in
/-- **A body puts what it registers on the shelf, and closes nothing.** -/
theorem Body.run_stocks (t : TestScope) (b : Body) :
    ∀ c : Closet Closure, c.Stocks (b.run t c).state := by
  induction b with
  | done => intro c; exact c.stocks_refl
  | basic b next ih =>
    intro c
    refine Ran.andThen_rel Stocks Stocks.trans ?_ ih
    rw [Ran.state_mapError]
    exact c.stocks_perform t.scope none b
  | branch cond yes no next ihy ihn ih =>
    intro c
    rw [run]
    split
    · exact Ran.andThen_rel Stocks Stocks.trans (ihy c) ih
    · exact Ran.andThen_rel Stocks Stocks.trans (ihn c) ih
  | autoClose r close next ih => intro c; exact (c.stocks_register _ _ _).trans (ih _)
  | deferClose close next ih => intro c; exact (c.stocks_register _ _ _).trans (ih _)
  | publish kind payload next ih =>
    intro c
    have hb : c.Stocks { c with book := c.book.add (.notified (.event t.test kind payload)) } :=
      stocks_notes (c.book.notes_add rfl rfl rfl)
    rw [run, Notebook.notify]
    cases t.listener.panic? (.event t.test kind payload) with
    | some p => exact hb
    | none => exact hb.trans (ih _)
  | nameSelf next ih => intro c; exact (stocks_notes (c.book.notes_add rfl rfl rfl)).trans (ih _)
  | describeSelf next ih =>
    intro c
    exact (stocks_notes (c.book.notes_add rfl rfl rfl)).trans (ih _)

theorem Body.execute_stocks (t : TestScope) (b : Body) (c : Closet Closure) :
    c.Stocks (b.execute t c).2 := by
  have hran : c.Stocks { c with book := c.book.add (.ran t.scope.root t.test.path) } :=
    Closet.stocks_notes (c.book.notes_add rfl rfl rfl)
  exact hran.trans (b.run_stocks t _)

/-- A replay that only puts what it registers on its shelf. -/
def Replay.Stocks (r q : Replay) : Prop :=
  r.closet.Stocks q.closet

theorem Replay.Stocks.trans {r q p : Replay} (h : r.Stocks q) (k : q.Stocks p) : r.Stocks p :=
  Closet.Stocks.trans h k

theorem Replay.stocks_closet {r : Replay} {c : Closet Closure} {d : Decision}
    (h : r.closet.Stocks c) : r.Stocks ⟨c, d⟩ :=
  h

theorem Replay.stocks_add (r : Replay) {e : Event} (hr : e.registered? = none)
    (hc : e.closed? = none) (hf : e.finished? = none) :
    r.Stocks { r with closet := { r.closet with book := r.closet.book.add e } } :=
  Closet.stocks_notes (r.closet.book.notes_add hr hc hf)

open Replay in
/-- **A replay puts what it registers on its shelf, and closes nothing.** -/
theorem Builder.replay_stocks (t : TestScope) (b : Builder) :
    ∀ (depth : Nat) (r : Replay), r.Stocks (b.replay t depth r).state := by
  induction b with
  | done => intro depth r; exact r.closet.stocks_refl
  | basic b next ih =>
    intro depth r
    refine Ran.andThen_rel Stocks Stocks.trans ?_ (ih depth)
    show r.closet.Stocks ((r.closet.perform t.scope none b).mapError _).state
    rw [Ran.state_mapError]
    exact r.closet.stocks_perform t.scope none b
  | branch c yes no next ihy ihn ih =>
    intro depth r
    rw [replay]
    split
    · exact Ran.andThen_rel Stocks Stocks.trans (ihy depth r) (ih depth)
    · exact Ran.andThen_rel Stocks Stocks.trans (ihn depth r) (ih depth)
  | autoClose res close next ih =>
    intro depth r
    exact (stocks_closet (r.closet.stocks_register _ _ _)).trans (ih depth _)
  | deferClose close next ih =>
    intro depth r
    exact (stocks_closet (r.closet.stocks_register _ _ _)).trans (ih depth _)
  | test name site body swallow next ih =>
    intro depth r
    rw [replay]
    split
    · exact (stocks_closet (body.execute_stocks t r.closet)).trans (ih depth _)
    · exact ih depth r
  | context name site inner swallow next ihi ih =>
    intro depth r
    rw [replay]
    split
    · -- what is decided on leaving is no part of the closet
      refine Stocks.trans ?_ (ih depth _)
      rw [Stocks, Replay.closet_leave]
      exact (r.stocks_add rfl rfl rfl).trans (ihi _ _)
    · exact ih depth r
  | pending name site swallow next ih => intro depth r; exact ih depth r
  | afterSuite callback next ih => intro depth r; exact ih depth r
  | logCurrent next ih =>
    intro depth r
    exact (r.stocks_add rfl rfl rfl).trans (ih depth _)

/-! ### Units -/

namespace World

/-- The shelf and the notebook when the script of a unit has ended, and nothing is closed yet. -/
def walked (w : World) : TestUnit → Closet Closure
  | .direct test body scope shelf =>
    (body.execute ⟨test, w.listener, scope⟩ ⟨w.shelf shelf, w.book⟩).2
  | .replayed test root => (root.replayWalk w.listener test w.book).state.closet
  | .scripted _ script _ => ⟨[], (script.run ⟨0, 0⟩ none w.book).state⟩

/-- What a unit owns before it runs. -/
def stock (w : World) (u : TestUnit) : Shelf Closure :=
  match u.shelf? with
  | some k => w.shelf k
  | none => []

/-- The shelves when a unit has ended. -/
def emptied (w : World) (u : TestUnit) : List (Shelf Closure) :=
  match u.shelf? with
  | some k => w.shelves.set k []
  | none => w.shelves

/-- The shelf of a direct unit is one of those of the world. -/
def Houses (w : World) (u : TestUnit) : Prop :=
  ∀ k, u.shelf? = some k → k < w.shelves.length

variable {w : World} {u : TestUnit}

/-- Until its script has ended, a unit registers and closes nothing. -/
theorem walked_stocks (w : World) (u : TestUnit) :
    Closet.Stocks ⟨w.stock u, w.book⟩ (w.walked u) := by
  cases u with
  | direct test body scope shelf => exact body.execute_stocks _ _
  | replayed test root =>
    have htrace : w.book.Notes (w.book.trace .debug "replaying test" [("test", test.display)]) :=
      w.book.notes_add rfl rfl rfl
    have hinvoke : Notebook.Notes _ (w.book.replaying root test).2 :=
      (Notebook.notes_add _ rfl rfl rfl).trans (Notebook.notes_of_eq rfl rfl)
    have hbegin : Closet.Stocks ⟨[], w.book⟩ ⟨[], (w.book.replaying root test).2⟩ :=
      Closet.stocks_notes (htrace.trans hinvoke)
    exact hbegin.trans (root.builder.replay_stocks _ 0 ⟨⟨[], _⟩, .undecided⟩)
  | scripted test script result => exact Closet.stocks_notes (script.run_notes _ _ _)

/-- **A unit closes what is on its shelf when its script has ended.** -/
theorem runUnit_walked (hu : w.Houses u) :
    (w.runUnit u).2 = { w with
      book := ((w.walked u).book.sweep (w.walked u).shelf).2, shelves := w.emptied u } := by
  cases u with
  | direct test body scope k =>
    have hk : k < w.shelves.length := hu k rfl
    have hshelf : (w.putCloset k (w.walked (.direct test body scope k))).shelf k
        = (w.walked (.direct test body scope k)).shelf := shelf_putCloset_self hk _
    show ((w.putCloset k (w.walked (.direct test body scope k))).closeShelf k).2 = _
    rw [closeShelf, hshelf]
    simp only [putCloset, List.set_set]
    rfl
  | replayed test root =>
    rfl
  | scripted test script result =>
    rw [runUnit]
    split <;> rfl

/-- **A unit runs its script, and then closes what the script registered and what it owned**, in
reverse order of registration. -/
theorem runUnit_writes (hu : w.Houses u) : ∃ walk closing,
    w.book.Writes (w.walked u).book walk ∧ closedIn walk = [] ∧ finishedIn walk = [] ∧
      (w.walked u).book.Writes (w.runUnit u).2.book closing ∧
      Closes ((registeredIn walk).reverse ++ (w.stock u).serials) closing := by
  obtain ⟨walk, hwalk, ⟨more, hshelf, hmore⟩, hclosed, hfinished⟩ := w.walked_stocks u
  obtain ⟨closing, hclosing, hcloses⟩ := (w.walked u).book.sweep_writes (w.walked u).shelf
  rw [hshelf, Shelf.serials, List.map_append] at hcloses
  refine ⟨walk, closing, hwalk, hclosed, hfinished, ?_, ?_⟩
  · rw [runUnit_walked hu]
    exact hclosing
  · rw [← hmore]
    exact hcloses

theorem Rests.writes {v w : World} (h : v.Rests w) : v.book.Writes w.book [] :=
  Notebook.writes_nil h.acts h.serials

/-- Closing a shelf and writing about it closes what is on the shelf. -/
theorem closeTraced_closes (w : World) (k : Nat) (message : String)
    (fields : List (String × String)) : ∃ book es,
      (w.closeShelf k).1.foldl (fun w e => w.trace .warn (message ++ e.display) fields)
        (w.closeShelf k).2 = { w with book, shelves := w.shelves.set k [] } ∧
      w.book.Writes book es ∧ Closes (w.shelf k).serials es := by
  obtain ⟨es, hw, hc⟩ := Notebook.sweep_writes (w.shelf k) w.book
  obtain ⟨book, hb, hr⟩ := foldl_trace_eq (w.closeShelf k).1 message fields (w.closeShelf k).2
  refine ⟨book, es, hb, ?_, hc⟩
  have := hw.trans hr.writes
  rwa [List.append_nil] at this

theorem closeWarning_closes (w : World) (k : Nat) (message root : String) : ∃ book es,
    w.closeWarning k message root = { w with book, shelves := w.shelves.set k [] } ∧
      w.book.Writes book es ∧ Closes (w.shelf k).serials es :=
  w.closeTraced_closes k message _

/-- **A unit that is dropped closes what it owns.** -/
theorem dropUnit_closes (w : World) (u : TestUnit) : ∃ book es,
    w.dropUnit u = { w with book, shelves := w.emptied u } ∧ w.book.Writes book es ∧
      Closes (w.stock u).serials es := by
  cases u with
  | direct test body scope k => exact w.closeTraced_closes k _ _
  | replayed test root => exact ⟨_, [], rfl, w.book.writes_refl, rfl, rfl, rfl⟩
  | scripted test script result => exact ⟨_, [], rfl, w.book.writes_refl, rfl, rfl, rfl⟩

end World

end TestTree
