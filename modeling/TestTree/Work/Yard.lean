/-
A yard of cells with a pool, and the scripts that work there: an abstract machine.

* `Yard` : cells, handles, pool, variables, log, and the stack of what is going on;
* `Yard.perform` : an operation either answers at once or puts something on the stack;
* `Yard.advance` : one step of what is on top of the stack;
* `Yard.take` : an operation from outside, followed until the stack is empty again.

## Design notes

Everything happens on one thread at a time.  Waiting for a suspended cell runs its job in place, on
top of the job that waits; the workers serve the queue on top of whoever asked for it.  So a cell is
running exactly while its job is on the stack, and a wait for a running cell is a wait for
oneself: the machine is stuck then.  Each step makes `Yard.weight` smaller.
-/
import TestTree.Journal.Event
import TestTree.Work.Job

namespace TestTree

/-- What the queue holds. -/
inductive Work (α : Type) where
  | script (job : Job α)
  | start (cell : Nat)
  deriving Inhabited

/-- An accepted entry of the queue, with its number among all accepted ones. -/
structure Ticket (α : Type) where
  number : Nat
  work : Work α
  deriving Inhabited

/-- Who asked for the job of a cell to be run: a caller that wants to know whether it ran, a caller
that wants the value, or a worker. -/
inductive Caller where
  | run
  | wait
  | worker
  deriving DecidableEq, Inhabited

/-- What a script on the stack is the script of. -/
inductive Task (α : Type) where
  | cell (i : Nat) (value : α) (caller : Caller)
  /-- A job that was submitted on its own. -/
  | plain
  deriving Inhabited

/-- One thing that is going on. -/
inductive Frame (α : Type) where
  | job (rest : Job α) (task : Task α)
  /-- The workers serve the queue, either once or for the last time. -/
  | serving (last : Bool)
  deriving Inhabited

/-- What a cell holds when its job has ended. -/
def Cell.final {J α : Type} (failed value : α) : Ending Thrown → Cell J α
  | .finished => .done value
  | .failed _ => .done failed
  | .panicked _ => .abandoned

/-- What is said of the value of a cell. -/
def Cell.answer {J α : Type} (c : Cell J α) : Answer α :=
  match c.value? with
  | some (.ok v) => .value v
  | some (.error reason) => .unavailable reason
  | none => .nothing

/-- A call that runs, awaits, reads or cancels a cell. -/
inductive Call where
  | run
  | wait
  | value
  | cancel
  deriving DecidableEq, Inhabited

/-- The operation that calls a cell, which is known by the number of a handle. -/
def Call.op {α : Type} (d : Option Nat) : Call → Op α
  | run => .run d
  | wait => .wait d
  | value => .value d
  | cancel => .cancel d

/-- What comes back to a caller when the job that it asked for has ended and left `c`; a panic goes
through it. -/
def Caller.hears? {J α : Type} (c : Cell J α) (ending : Ending Thrown) :
    Caller → Option (Call × Answer α)
  | run => some (.run, match ending with
    | .panicked p => .panicked p.message
    | _ => .flag true)
  | wait => some (.wait, match ending with
    | .panicked p => .panicked p.message
    | _ => c.answer)
  | worker => none

/-- One thing that happened in the yard. -/
inductive YardEvent (α : Type) where
  | said (line : String)
  | answered (op : String) (answer : Answer α)
  | traced (trace : Trace)
  /-- A job entered the queue. -/
  | accepted (number : Nat)
  /-- A worker took a job from the queue. -/
  | taken (number : Nat)
  /-- The job of a cell began. -/
  | began (cell : Nat)
  /-- The job of a cell ended. -/
  | ended (cell : Nat) (ending : Ending Thrown)
  /-- A call on a cell came back to its caller, with a value or with a panic. -/
  | returned (cell : Nat) (call : Call) (answer : Answer α)
  deriving Inhabited

/-- The yard; `failed` is the value of jobs of which a statement failed.  Events are kept newest
first. -/
structure Yard (α : Type) where
  threadPrefix : String
  failed : α
  pool : Pool (Ticket α)
  cells : List (Cell (Job α × α) α) := []
  /-- The cell behind each handle; a handle that was dropped has none. -/
  handles : List (Option Nat) := []
  store : Store := []
  events : List (YardEvent α) := []
  stack : List (Frame α) := []
  /-- The answer to the operation from outside. -/
  reply : Option (Answer α) := none
  /-- Somebody waits for itself. -/
  stuck : Bool := false
  deriving Inhabited

namespace Yard

variable {α : Type}

/-- A yard whose workers are kept busy until the queue is to be served, or the panic of starting
them. -/
def fresh (workers : Nat) (threadPrefix : String) (failed : α) : Except Payload (Yard α) :=
  match Pool.startPanic? workers threadPrefix with
  | some p => .error p
  | none => .ok { threadPrefix, failed, pool := .held workers }

/-- The variables of jobs are shared by all of them. -/
def scope : Scope :=
  ⟨0, 0⟩

/-- Write an event down. -/
def add (y : Yard α) (e : YardEvent α) : Yard α :=
  { y with events := e :: y.events }

/-- Put something on the stack. -/
def push (y : Yard α) (f : Frame α) : Yard α :=
  { y with stack := f :: y.stack }

/-- The cell of a number. -/
def cell (y : Yard α) (i : Nat) : Cell (Job α × α) α :=
  y.cells[i]?.getD .discarded

/-- Put something into a cell. -/
def setCell (y : Yard α) (i : Nat) (c : Cell (Job α × α) α) : Yard α :=
  { y with cells := y.cells.set i c }

/-- An operation is answered: inside a job the answer is logged, outside it is the reply. -/
def answer (y : Yard α) (op : String) (a : Answer α) : Yard α :=
  match y.stack with
  | [] => { y with reply := some a }
  | _ => y.add (.answered op a)

/-- A call on a cell is answered. -/
def returned (y : Yard α) (i : Nat) (call : Call) (a : Answer α) : Yard α :=
  (y.add (.returned i call a)).answer (call.op none : Op α).name a

/-- The workers are serving the queue. -/
def isServing (y : Yard α) : Bool :=
  y.stack.any fun
    | .serving _ => true
    | .job .. => false

/-- The pool is being shut down, and whoever does it waits for the workers. -/
def isClosing (y : Yard α) : Bool :=
  y.stack.any fun
    | .serving last => last
    | .job .. => false

/-! ### Operations -/

/-- A new cell with a new handle. -/
def addCell (y : Yard α) (op : String) (c : Cell (Job α × α) α) : Yard α :=
  { y with
    cells := y.cells ++ [c]
    handles := y.handles ++ [some y.cells.length] }.answer op (.handle y.handles.length)

/-- Queue something, unless the pool was shut down. -/
def enqueue (y : Yard α) (op : String) (work : Work α) : Yard α :=
  let number := y.pool.accepted
  match y.pool.submit? ⟨number, work⟩ with
  | some pool => ({ y with pool }.add (.accepted number)).answer op .ok
  | none => y.answer op .refused

/-- Make a suspended cell. -/
def create (y : Yard α) (value : α) (job : Job α) : Yard α :=
  y.addCell "new" (.suspended (job, value))

/-- Submit a job. -/
def submit (y : Yard α) (job : Job α) : Yard α :=
  y.enqueue "submit" (.script job)

/-- The job of a cell begins. -/
def begin (y : Yard α) (i : Nat) (job : Job α) (value : α) (caller : Caller) : Yard α :=
  ((y.setCell i .running).add (.began i)).push (.job job (.cell i value caller))

/-- The cell of a handle that has not been dropped. -/
def cellOf? (y : Yard α) (d : Option Nat) : Option Nat :=
  d.bind fun d => y.handles[d]?.join

/-- An operation on the cell of a handle. -/
def onCell (y : Yard α) (d : Option Nat) (op : Op α) (f : Nat → Yard α) : Yard α :=
  match y.cellOf? d with
  | some i => f i
  | none => y.answer op.name .noSuchHandle

/-- A handle is dropped; the cell stays as long as there are others. -/
def dropHandle (y : Yard α) (d : Nat) : Yard α :=
  { y with handles := y.handles.set d none }

/-- The job of a cell is run in place. -/
def run (y : Yard α) (i : Nat) : Yard α :=
  match y.cell i with
  | .suspended (job, value) => y.begin i job value .run
  | _ => y.returned i .run (.flag false)

/-- The value of a cell is waited for; a suspended job is run in place. -/
def wait (y : Yard α) (i : Nat) : Yard α :=
  match y.cell i with
  | .suspended (job, value) => y.begin i job value .wait
  | c => if c.isDone then y.returned i .wait c.answer else { y with stuck := true }

/-- A cell is cancelled if its job has not begun. -/
def cancel (y : Yard α) (i : Nat) : Yard α :=
  match y.cell i with
  | .suspended _ => (y.setCell i .cancelled).returned i .cancel (.flag true)
  | _ => y.returned i .cancel (.flag false)

/-- The value of a cell, if it is there yet. -/
def value (y : Yard α) (i : Nat) : Yard α :=
  y.returned i .value (y.cell i).answer

/-- The job of a cell is handed to the pool, if it has not begun. -/
def start (y : Yard α) (i : Nat) : Yard α :=
  if (y.cell i).isSuspended then y.enqueue "start" (.start i) else y.answer "start" .ok

/-- The workers are let go, to serve the queue.  A worker that asks for it waits for itself. -/
def runPool (y : Yard α) : Yard α :=
  if y.pool.shutDown then y.answer "run_pool" .ok
  else if y.isServing then { y with stuck := true }
  else { y with pool := y.pool.letGo }.push (.serving false)

/-- Nothing is accepted from now on, and the workers serve what is queued.  A worker that asks for it
goes on at once, and serves the queue behind its job.  While somebody waits for the workers to finish,
everybody else who asks for it waits as well, and a worker waits for itself. -/
def shutDown (y : Yard α) : Yard α :=
  if y.isClosing then { y with stuck := true }
  else if y.pool.shutDown then y.answer "shutdown" .ok
  else if y.isServing then { y with pool := y.pool.refuse }.answer "shutdown" .ok
  else { y with pool := y.pool.refuse.letGo }.push (.serving true)

/-- The names of the workers, sorted. -/
def workerNames (y : Yard α) : List String :=
  ((List.range y.pool.workers).map (Pool.workerName y.threadPrefix)).mergeSort fun a b => a ≤ b

/-- The name of the current thread. -/
def threadName (y : Yard α) : String :=
  if y.isServing then Pool.workerName y.threadPrefix 0 else "main"

/-- Perform an operation. -/
def perform (y : Yard α) (op : Op α) : Yard α :=
  let say (a : Answer α) : Yard α := y.answer op.name a
  match op with
  | .completed v => y.addCell op.name (.done v)
  | .clone d =>
    y.onCell d op fun i =>
      { y with handles := y.handles ++ [some i] }.answer op.name (.handle y.handles.length)
  | .drop d =>
    match d, y.cellOf? d with
    | some d, some _ => (y.dropHandle d).answer op.name (.flag true)
    | _, _ => say (.flag false)
  | .run d => y.onCell d op y.run
  | .wait d => y.onCell d op y.wait
  | .value d => y.onCell d op y.value
  | .cancel d => y.onCell d op y.cancel
  | .isSuspended d => y.onCell d op fun i => say (.flag (y.cell i).isSuspended)
  | .isDone d => y.onCell d op fun i => say (.flag (y.cell i).isDone)
  | .describe d => y.onCell d op fun i => say (.text (y.cell i).describe)
  | .start d => y.onCell d op y.start
  | .runPool => y.runPool
  | .shutDown => y.shutDown
  | .isShutDown => say (.flag y.pool.shutDown)
  | .stats => say (.stats y.pool.stats)
  | .names => say (.texts y.workerNames)
  | .thread => say (.text y.threadName)
  | .unknown _ d => y.onCell d op fun _ => say .unknownOperation

/-! ### Steps -/

/-- A worker is done with an entry of the queue; a panic is only traced. -/
def workerDone (y : Yard α) (ending : Ending Thrown) : Yard α :=
  let y := { y with pool := y.pool.finish }
  match ending with
  | .panicked p =>
    y.add (.traced ⟨.error, "worker job panicked: " ++ Text.quoted p.workerMessage, []⟩)
  | _ => y

/-- A job on top of the stack has ended; `below` is what is under it. -/
def endJob (y : Yard α) (task : Task α) (below : List (Frame α)) (ending : Ending Thrown) :
    Yard α :=
  let y := { y with stack := below }
  match task with
  | .plain => y.workerDone ending
  | .cell i value caller =>
    let c : Cell (Job α × α) α := .final y.failed value ending
    let y := (y.setCell i c).add (.ended i ending)
    match caller.hears? c ending with
    | none => y.workerDone ending
    | some (call, a) => y.returned i call a

/-- A worker takes the next entry of the queue, or all of them have been served. -/
def serveStep (y : Yard α) (last : Bool) (below : List (Frame α)) : Yard α :=
  match y.pool.take? with
  | some (ticket, pool) =>
    let y := { y with pool }.add (.taken ticket.number)
    match ticket.work with
    | .script job => y.push (.job job .plain)
    | .start i =>
      match y.cell i with
      | .suspended (job, value) => y.begin i job value .worker
      | _ => { y with pool := y.pool.finish }
  | none =>
    let pool := if y.pool.shutDown then y.pool else y.pool.hold
    { y with stack := below, pool }.answer
      (Op.name (if last then .shutDown else .runPool : Op α)) .ok

/-- One statement of the job on top of the stack. -/
def jobStep (y : Yard α) (rest : Job α) (task : Task α) (below : List (Frame α)) : Yard α :=
  let goOn (next : Job α) : Yard α := { y with stack := .job next task :: below }
  match rest with
  | .done => y.endJob task below .finished
  | .basic b next =>
    let e := b.perform scope none y.store
    let y := { goOn next with store := e.store }
    let y :=
      match e.line with
      | some line => y.add (.said line)
      | none => y
    match e.ending with
    | .finished => y
    | ending => y.endJob task below ending
  | .branch c yes no next =>
    goOn ((if c.holds y.store scope then yes else no).append next)
  | .create value job next => (goOn next).create value job
  | .submit job next => (goOn next).submit job
  | .op o next => (goOn next).perform o

/-- One step, unless nothing is going on or the yard is stuck. -/
def advance (y : Yard α) : Option (Yard α) :=
  if y.stuck then none
  else
    match y.stack with
    | [] => none
    | .serving last :: below => some (y.serveStep last below)
    | .job rest task :: below => some (y.jobStep rest task below)

/-- At most `fuel` steps. -/
def settle : (fuel : Nat) → Yard α → Yard α
  | 0, y => y
  | fuel + 1, y =>
    match y.advance with
    | none => y
    | some y => settle fuel y

/-- The weight of an entry of the queue. -/
def workWeight : Work α → Nat
  | .script job => job.weight + 2
  | .start _ => 2

/-- The weight of something that is going on. -/
def frameWeight : Frame α → Nat
  | .job rest _ => rest.weight + 1
  | .serving _ => 1

/-- The weight of a cell. -/
def cellWeight : Cell (Job α × α) α → Nat
  | .suspended (job, _) => job.weight + 1
  | _ => 0

/-- How many steps a yard can take. -/
def weight (y : Yard α) : Nat :=
  y.stack.foldr (fun f n => frameWeight f + n) 0
    + y.pool.queue.foldr (fun t n => workWeight t.work + n) 0
    + y.cells.foldr (fun c n => cellWeight c + n) 0

/-- An operation from outside is asked for. -/
def issue (y : Yard α) (s : Step α) : Yard α :=
  let y := { y with reply := none }
  match s with
  | .create value job => y.create value job
  | .submit job => y.submit job
  | .op o => y.perform o

/-- An operation from outside, followed until nothing is going on any more. -/
def take (y : Yard α) (s : Step α) : Answer α × Yard α :=
  let y := y.issue s
  let y := settle y.weight y
  (y.reply.getD .blocked, y)

end Yard

end TestTree
