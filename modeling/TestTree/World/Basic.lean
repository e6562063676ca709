/-
The world of a run: notebook, shelves, cells, pool and listener; and the handles that callers hold.

* `World.runUnit`, `dropUnit` : a unit runs, or is dropped without having run, and closes what it owns;
* `Handle` : a test and the cell of its unit;
* `World.schedule`, `scheduleSuspended`, `completed` : make handles;
* `World.start`, `wait`, `outcome?`, `cancel`, `drop` : what can be done with one;
* `World.runPool`, `shutDownPool` : let the pool serve its queue.

## Design notes

A panic of a listener escapes from whatever told it; such operations return `Except Payload`.  A
cell that is not final and that nobody can reach any more is discarded, and its unit is dropped: a
cell is reached through handles and through entries of the queue.
-/
import TestTree.Unit.Basic
import TestTree.Work.Cell
import TestTree.Work.Pool
import TestTree.Work.StartPolicy

namespace TestTree

/-- A test with the cell that its outcome will be in. -/
structure Handle where
  test : Description
  cell : Nat
  deriving Inhabited

/-- Everything that a run changes. -/
structure World where
  book : Notebook
  /-- The shelves of the discovery passes so far. -/
  shelves : List (Shelf Closure)
  cells : List (Cell TestUnit Outcome)
  pool : Pool Nat
  listener : Listener
  policy : StartPolicy
  deriving Inhabited

namespace World

/-- A world in which nothing has happened. -/
def fresh (pool : Pool Nat) (listener : Listener) (policy : StartPolicy) : World :=
  ⟨{}, [], [], pool, listener, policy⟩

/-- Write a diagnostic record down. -/
def trace (w : World) (level : Level) (message : String) (fields : List (String × String)) :
    World :=
  { w with book := w.book.trace level message fields }

/-- Tell the listener. -/
def notify (w : World) (notice : Notice) : Option Payload × World :=
  let (panic, book) := w.book.notify w.listener notice
  (panic, { w with book })

/-- The cell of a number; there is nothing in a cell that was never made. -/
def cell (w : World) (i : Nat) : Cell TestUnit Outcome :=
  w.cells[i]?.getD .discarded

/-- Put something into a cell. -/
def setCell (w : World) (i : Nat) (c : Cell TestUnit Outcome) : World :=
  { w with cells := w.cells.set i c }

/-! ### Shelves and units -/

/-- The callbacks on the shelf of a number. -/
def shelf (w : World) (i : Nat) : Shelf Closure :=
  w.shelves[i]?.getD []

/-- A shelf with a notebook for it. -/
def putCloset (w : World) (i : Nat) (c : Closet Closure) : World :=
  { w with shelves := w.shelves.set i c.shelf, book := c.book }

/-- Close everything on a shelf. -/
def closeShelf (w : World) (i : Nat) : List TeardownError × World :=
  let (errors, book) := w.book.sweep (w.shelf i)
  (errors, w.putCloset i ⟨[], book⟩)

/-- Run a unit.  Only a unit made by hand can panic; its errors are ignored. -/
def runUnit (w : World) : TestUnit → Except Payload TestResult × World
  | .direct test body scope shelf =>
    let (failure, c) := body.execute ⟨test, w.listener, scope⟩ ⟨w.shelf shelf, w.book⟩
    let (errors, w) := (w.putCloset shelf c).closeShelf shelf
    (.ok (conclude failure errors), w)
  | .replayed test root =>
    let (result, book) := replay w.listener root test w.book
    (.ok result, { w with book })
  | .scripted _ script result =>
    let ran := script.run ⟨0, 0⟩ none w.book
    match ran.ending with
    | .panicked p => (.error p, { w with book := ran.state })
    | _ => (result, { w with book := ran.state })

/-- A unit is dropped without having run.  What it owns is closed, and errors are only traced. -/
def dropUnit (w : World) : TestUnit → World
  | .direct _ _ _ shelf =>
    let (errors, w) := w.closeShelf shelf
    errors.foldl (fun w e =>
      w.trace .warn ("teardown of an unfinished test failed: " ++ e.display) []) w
  | _ => w

/-! ### Making handles -/

/-- A handle for a unit that is not started yet. -/
def scheduleSuspended (w : World) (u : TestUnit) : Handle × World :=
  let w := w.trace .debug "scheduled test"
    [("test", u.test.display), ("policy", w.policy.describe)]
  (⟨u.test, w.cells.length⟩, { w with cells := w.cells ++ [.suspended u] })

/-- Queue the unit of a handle, unless it has been started.  If the pool was shut down the unit
stays where it is, and whoever waits for it runs it. -/
def start (w : World) (h : Handle) : World :=
  if (w.cell h.cell).isSuspended then
    match w.pool.submit? h.cell with
    | some pool => { w with pool }
    | none =>
      w.trace .warn "worker pool is shut down, test runs when awaited" [("test", h.test.display)]
  else w

/-- Start a handle if the policy is eager. -/
def release (w : World) (h : Handle) : World :=
  match w.policy with
  | .eager => w.start h
  | .lazy => w

/-- A handle for a unit, started if the policy is eager. -/
def schedule (w : World) (u : TestUnit) : Handle × World :=
  let (h, w) := w.scheduleSuspended u
  (h, w.release h)

/-- A handle for an outcome that is already known; the listener hears of it. -/
def completed (w : World) (o : Outcome) : Except Payload Handle × World :=
  match w.notify (.finished o) with
  | (some p, w) => (.error p, w)
  | (none, w) => (.ok ⟨o.test, w.cells.length⟩, { w with cells := w.cells ++ [.done o] })

/-! ### Using handles -/

/-- The outcome of a test whose cell is final without a value. -/
def unfinished (test : Description) (reason : Unavailable) : Outcome :=
  let origin : Origin :=
    match reason with
    | .cancelled => .cancelled
    | .abandoned => .panic
  ⟨test, .failed (.ofCause origin (.text reason.message))⟩

/-- Run the unit of a cell that is suspended.  If the listener or the unit panics, the cell is
abandoned and the panic goes on. -/
def runCell (w : World) (i : Nat) : Option Payload × World :=
  match w.cell i with
  | .suspended u =>
    match (w.setCell i .running).notify (.started u.test) with
    | (some p, w) => (some p, (w.dropUnit u).setCell i .abandoned)
    | (none, w) =>
      match w.runUnit u with
      | (.error p, w) => (some p, w.setCell i .abandoned)
      | (.ok result, w) =>
        match w.notify (.finished ⟨u.test, result⟩) with
        | (some p, w) => (some p, w.setCell i .abandoned)
        | (none, w) => (none, w.setCell i (.done ⟨u.test, result⟩))
  | _ => (none, w)

/-- The outcome of a handle, if its cell is final. -/
def outcome? (w : World) (h : Handle) : Option Outcome :=
  (w.cell h.cell).value?.map fun
    | .ok o => o
    | .error reason => unfinished h.test reason

/-- Wait for the outcome of a handle, running its unit first if nobody has started it.  There is no
outcome only while the unit is running, when the wait would not end. -/
def wait (w : World) (h : Handle) : Except Payload (Option Outcome) × World :=
  match w.runCell h.cell with
  | (some p, w) => (.error p, w)
  | (none, w) => (.ok (w.outcome? h), w)

/-- Cancel a test that has not been started; the listener hears of it. -/
def cancel (w : World) (h : Handle) : Except Payload Bool × World :=
  match w.cell h.cell with
  | .suspended u =>
    let w := (w.setCell h.cell .cancelled).dropUnit u
    let w := w.trace .debug "cancelled test" [("test", h.test.display)]
    match w.notify (.finished (unfinished h.test .cancelled)) with
    | (some p, w) => (.error p, w)
    | (none, w) => (.ok true, w)
  | _ => (.ok false, w)

/-- A handle is let go of. -/
def drop (w : World) (h : Handle) : World :=
  if w.pool.queue.contains h.cell then w
  else
    match w.cell h.cell with
    | .suspended u => (w.dropUnit u).setCell h.cell .discarded
    | _ => w

/-- Several handles are let go of, in order. -/
def dropAll (w : World) (hs : List Handle) : World :=
  hs.foldl drop w

/-- Start several handles, in order. -/
def startAll (w : World) (hs : List Handle) : World :=
  hs.foldl start w

/-- Wait for several handles, in order, until a wait panics. -/
def waitEach (w : World) : List Handle → Except Payload (List Outcome) × World
  | [] => (.ok [], w)
  | h :: rest =>
    match w.wait h with
    | (.error p, w) => (.error p, w)
    | (.ok outcome, w) =>
      match w.waitEach rest with
      | (.error p, w) => (.error p, w)
      | (.ok outcomes, w) => (.ok (outcome.toList ++ outcomes), w)

/-- Start several handles and wait for all of them. -/
def waitAll (w : World) (hs : List Handle) : Except Payload (List Outcome) × World :=
  (w.startAll hs).waitEach hs

/-- Cancel every handle that has not been started, in order, and count them. -/
def cancelAll (w : World) : List Handle → Except Payload Nat × World
  | [] => (.ok 0, w)
  | h :: rest =>
    match w.cancel h with
    | (.error p, w) => (.error p, w)
    | (.ok cancelled, w) =>
      match w.cancelAll rest with
      | (.error p, w) => (.error p, w)
      | (.ok count, w) => (.ok (count + if cancelled then 1 else 0), w)

/-- The description of a handle as a value. -/
def describeHandle (w : World) (h : Handle) : String :=
  Text.record "TestHandle"
    [("test", h.test.describe), ("deferred", (w.cell h.cell).describe)]

/-- The description of the scheduler as a value. -/
def describeScheduler (w : World) : String :=
  Text.record "TestScheduler"
    [("policy", w.policy.describe), ("pool", w.pool.stats.describe)]

/-! ### The pool -/

/-- A worker takes the oldest entry of the queue and runs it.  A panic ends the entry only. -/
def serveOne (w : World) : World :=
  match w.pool.take? with
  | none => w
  | some (i, pool) =>
    let (panic, w) := { w with pool }.runCell i
    let w :=
      match panic with
      | some p =>
        w.trace .error ("worker job panicked: " ++ Text.quoted p.workerMessage) []
      | none => w
    { w with pool := w.pool.finish }

/-- Serve at most `n` entries. -/
def serve : (n : Nat) → World → World
  | 0, w => w
  | n + 1, w => serve n w.serveOne

/-- Let the workers serve the whole queue.  Units queue nothing, so its length is the work. -/
def serveAll (w : World) : World :=
  serve w.pool.queue.length w

/-- Let the workers go, serve the queue, and keep them busy again. -/
def runPool (w : World) : World :=
  if w.pool.shutDown then w
  else
    let w := { w with pool := w.pool.letGo }.serveAll
    { w with pool := w.pool.hold }

/-- Accept nothing from now on, and serve what is queued. -/
def shutDownPool (w : World) : World :=
  if w.pool.shutDown then w
  else { w with pool := w.pool.refuse.letGo }.serveAll

end World

end TestTree
