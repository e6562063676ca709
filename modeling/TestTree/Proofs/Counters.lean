/-
The counter of a yard: what its pool has accepted, and what has become of it.

* `Yard.accepts`, `Yard.takes` : the jobs that were accepted and those that were taken, oldest first;
* `Counter.Turn` : all that a turn can do to a counter;
* `Yard.Turn.counts` : **a turn of the yard is a turn of its counter**.

## Design notes

The workers of a yard are kept busy by a job each until the queue is to be served.  These jobs were
submitted as well, but no program asks for them, so they have numbers and no events.  While the queue
is served, one worker serves it, and a job of a worker is found on top of the serving.
-/
import TestTree.Proofs.Settling

namespace TestTree

variable {α : Type}

/-! ### Counters -/

/-- The number of the job that an event lets into the queue. -/
def YardEvent.accepted? : YardEvent α → Option Nat
  | accepted n => some n
  | _ => none

/-- The number of the job that an event takes from the queue. -/
def YardEvent.taken? : YardEvent α → Option Nat
  | taken n => some n
  | _ => none

/-- The jobs that were accepted so far, oldest first. -/
def Yard.accepts (y : Yard α) : List Nat :=
  (y.events.filterMap YardEvent.accepted?).reverse

/-- The jobs that workers took so far, oldest first. -/
def Yard.takes (y : Yard α) : List Nat :=
  (y.events.filterMap YardEvent.taken?).reverse

/-- The job of a task is run by a worker. -/
def Task.isWorkers : Task α → Bool
  | plain => true
  | cell _ _ .worker => true
  | cell .. => false

/-- What workers can be busy with: the queue, or a job. -/
inductive Post where
  | serving (last : Bool)
  | working

/-- What the workers do for something that is going on. -/
def Frame.post? : Frame α → Option Post
  | serving last => some (.serving last)
  | job _ task => if task.isWorkers then some .working else none

/-- What concerns the pool of a yard. -/
structure Counter (α : Type) where
  pool : Pool (Ticket α)
  /-- What the workers are doing, the innermost first. -/
  crew : List Post
  accepts : List Nat
  takes : List Nat

/-- The counter of a yard. -/
def Yard.counter (y : Yard α) : Counter α :=
  ⟨y.pool, y.stack.filterMap Frame.post?, y.accepts, y.takes⟩

namespace Counter

/-- All that can happen at a counter in one turn. -/
inductive Turn : Counter α → Counter α → Prop
  | rest (c : Counter α) : Turn c c
  | accepted (c : Counter α) (h : c.pool.shutDown = false) (work : Work α) : Turn c { c with
      pool := { c.pool with
        queue := c.pool.queue ++ [⟨c.pool.accepted, work⟩], accepted := c.pool.accepted + 1 }
      accepts := c.accepts ++ [c.pool.accepted] }
  | opened {c : Counter α} (h : c.pool.shutDown = false) (hc : c.crew = []) :
      Turn c { c with pool := c.pool.letGo, crew := [.serving false] }
  /-- A worker shuts the pool down. -/
  | refused {c : Counter α} (hc : c.crew ≠ []) : Turn c { c with pool := c.pool.refuse }
  | closed {c : Counter α} (hc : c.crew = []) :
      Turn c { c with pool := c.pool.refuse.letGo, crew := [.serving true] }
  | began {c : Counter α} {last : Bool} {crew : List Post} (hc : c.crew = .serving last :: crew)
      {t : Ticket α} {queue : List (Ticket α)} (hq : c.pool.queue = t :: queue) : Turn c { c with
        pool := { c.pool with queue, active := c.pool.active + 1 }
        crew := .working :: c.crew
        takes := c.takes ++ [t.number] }
  /-- What was queued has nothing to do any more. -/
  | passed {c : Counter α} {last : Bool} {crew : List Post} (hc : c.crew = .serving last :: crew)
      {t : Ticket α} {queue : List (Ticket α)} (hq : c.pool.queue = t :: queue) : Turn c { c with
        pool := ({ c.pool with queue, active := c.pool.active + 1 } : Pool (Ticket α)).finish
        takes := c.takes ++ [t.number] }
  | ended {c : Counter α} {crew : List Post} (hc : c.crew = .working :: crew) :
      Turn c { c with pool := c.pool.finish, crew }
  | served {c : Counter α} {last : Bool} {crew : List Post} (hc : c.crew = .serving last :: crew)
      (hq : c.pool.queue = []) :
      Turn c { c with pool := if c.pool.shutDown then c.pool else c.pool.hold, crew }

/-- The workers are busy with nothing but jobs of their own, or one of them serves the queue. -/
def Manned (c : Counter α) : Prop :=
  c.crew = [] ∨ ∃ last, c.crew = [.serving last] ∨ c.crew = [.working, .serving last]

end Counter

/-! ### What operations do to a counter -/

namespace Yard

variable {y z : Yard α} {i : Nat}

theorem counter_add (y : Yard α) {e : YardEvent α} (ha : e.accepted? = none)
    (ht : e.taken? = none) : (y.add e).counter = y.counter := by
  rw [counter, counter, accepts, takes, accepts, takes, add, List.filterMap_cons_none ha,
    List.filterMap_cons_none ht]

@[simp] theorem counter_answer (y : Yard α) (op : String) (a : Answer α) :
    (y.answer op a).counter = y.counter := by
  rw [answer]
  split
  · rfl
  · exact counter_add y rfl rfl

theorem counter_returned (y : Yard α) (i : Nat) (call : Call) (a : Answer α) :
    (y.returned i call a).counter = y.counter :=
  (counter_answer _ _ _).trans (counter_add _ rfl rfl)

/-- A job that a caller runs in place is no job of a worker. -/
theorem counter_begin (y : Yard α) (job : Job α) (value : α) {caller : Caller}
    (h : caller ≠ .worker) : (y.begin i job value caller).counter = y.counter := by
  have hadd := counter_add (y.setCell i .running) (e := .began i) rfl rfl
  cases caller with
  | worker => exact absurd rfl h
  | run => exact hadd
  | wait => exact hadd

theorem counter_begin_worker (y : Yard α) (job : Job α) (value : α) :
    (y.begin i job value .worker).counter = { y.counter with crew := .working :: y.counter.crew } :=
  rfl

/-- While nobody serves the queue, the workers have no job of the yard. -/
theorem crew_eq_nil (hm : y.counter.Manned) (hs : y.isServing = false) : y.counter.crew = [] := by
  refine hm.resolve_right ?_
  rintro ⟨last, h⟩
  have hmem : Post.serving last ∈ y.stack.filterMap Frame.post? := by
    rcases h with h | h <;> rw [show y.stack.filterMap Frame.post? = _ from h]
    · exact List.mem_cons_self
    · exact List.mem_cons_of_mem _ List.mem_cons_self
  obtain ⟨f, hf, hpost⟩ := List.mem_filterMap.mp hmem
  rw [isServing, List.any_eq_false] at hs
  cases f with
  | serving l => exact hs _ hf rfl
  | job rest task =>
    rw [Frame.post?] at hpost
    split at hpost <;> cases hpost

theorem crew_ne_nil (hs : y.isServing = true) : y.counter.crew ≠ [] := by
  rw [isServing, List.any_eq_true] at hs
  obtain ⟨f, hf, hserving⟩ := hs
  cases f with
  | job rest task => cases hserving
  | serving last =>
    exact List.ne_nil_of_mem (List.mem_filterMap.mpr ⟨_, hf, rfl⟩)

/-- From `y` to `z` the counter took a turn. -/
abbrev Counts (y z : Yard α) : Prop :=
  y.counter.Turn z.counter

theorem counts_still (h : z.counter = y.counter) : y.Counts z := by
  rw [Counts, h]
  exact .rest _

theorem counter_accepted (y : Yard α) (n : Nat) :
    (y.add (.accepted n)).counter = { y.counter with accepts := y.accepts ++ [n] } := by
  have haccepts : (y.add (.accepted n)).accepts = y.accepts ++ [n] := List.reverse_cons
  rw [counter, haccepts]
  rfl

theorem counter_taken (y : Yard α) (n : Nat) :
    (y.add (.taken n)).counter = { y.counter with takes := y.takes ++ [n] } := by
  have htakes : (y.add (.taken n)).takes = y.takes ++ [n] := List.reverse_cons
  rw [counter, htakes]
  rfl

theorem enqueue_open (h : y.pool.shutDown = false) (op : String) (work : Work α) :
    y.enqueue op work = (({ y with pool := { y.pool with
      queue := y.pool.queue ++ [⟨y.pool.accepted, work⟩]
      accepted := y.pool.accepted + 1 } } : Yard α).add (.accepted y.pool.accepted)).answer op .ok := by
  rw [enqueue, Pool.submit?, if_neg (by rw [h]; exact Bool.false_ne_true)]

theorem enqueue_shutDown (h : y.pool.shutDown = true) (op : String) (work : Work α) :
    y.enqueue op work = y.answer op .refused := by
  rw [enqueue, Pool.submit?, if_pos h]

theorem counts_enqueue (y : Yard α) (op : String) (work : Work α) :
    y.Counts (y.enqueue op work) := by
  cases hs : y.pool.shutDown with
  | true =>
    rw [enqueue_shutDown hs]
    exact counts_still (counter_answer _ _ _)
  | false =>
    have haccepted := Counter.Turn.accepted y.counter hs work
    rw [enqueue_open hs, Counts, counter_answer, counter_accepted]
    exact haccepted

/-- **What an operation does to a counter.** -/
theorem Performs.counts {op : Op α} (h : y.Performs op z) (hm : y.counter.Manned) : y.Counts z := by
  cases h with
  | said a => exact counts_still (counter_answer _ _ _)
  | completed v => exact counts_still (counter_answer _ _ _)
  | cloned hd a => exact counts_still (counter_answer _ _ _)
  | dropped d a => exact counts_still (counter_answer _ _ _)
  | began h hc => exact counts_still (counter_begin _ _ _ hc)
  | returned hd h => exact counts_still (counter_returned _ _ _ _)
  | cancelled h => exact counts_still (counter_returned _ _ _ _)
  | queued i => exact counts_enqueue _ _ _
  | blocked hb => exact counts_still rfl
  | opened ho hi =>
    have hcrew := crew_eq_nil hm hi
    have hopened := Counter.Turn.opened ho hcrew
    rwa [← hcrew] at hopened
  | refused hi a =>
    rw [Counts, counter_answer]
    exact .refused (crew_ne_nil hi)
  | closed hi =>
    have hcrew := crew_eq_nil hm hi
    have hclosed := Counter.Turn.closed hcrew
    rwa [← hcrew] at hclosed

theorem counts_issue (hm : y.counter.Manned) (s : Step α) : y.Counts (y.issue s) := by
  cases s with
  | create value job => exact counts_still (counter_answer _ _ _)
  | submit job => exact counts_enqueue { y with reply := none } "submit" (.script job)
  | op o => exact (performs { y with reply := none } o).counts hm

/-! ### What steps do to a counter -/

/-- The rest of a script is none of the counter. -/
theorem counter_goOn {rest : Job α} {task : Task α} {below : List (Frame α)}
    (hs : y.stack = .job rest task :: below) (next : Job α) :
    ({ y with stack := .job next task :: below } : Yard α).counter = y.counter := by
  have hcrew : (Frame.job next task :: below).filterMap Frame.post?
      = y.stack.filterMap Frame.post? := by
    rw [hs]
    rfl
  show Counter.mk y.pool _ y.accepts y.takes = _
  rw [hcrew]
  rfl

theorem counter_workerDone (y : Yard α) (ending : Ending Thrown) :
    (y.workerDone ending).counter = { y.counter with pool := y.pool.finish } := by
  cases ending <;> rfl

/-- **What the end of a job does to a counter.**  How the job ended makes no difference. -/
theorem counts_endJob {rest : Job α} {task : Task α} {below : List (Frame α)}
    (hs : y.stack = .job rest task :: below) (ending : Ending Thrown) :
    y.Counts (y.endJob task below ending) := by
  have hcrew : y.counter.crew = (if task.isWorkers then [Post.working] else [])
      ++ below.filterMap Frame.post? := by
    show y.stack.filterMap Frame.post? = _
    rw [hs, List.filterMap_cons, Frame.post?]
    cases task.isWorkers <;> rfl
  cases task with
  | plain =>
    have hended := Counter.Turn.ended (c := y.counter) hcrew
    rw [Counts, endJob, counter_workerDone]
    exact hended
  | cell i value caller =>
    let x : Yard α := ({ y with stack := below }.setCell i (.final y.failed value ending)).add
      (.ended i ending)
    have hx : x.counter = ({ y with stack := below } : Yard α).counter := counter_add _ rfl rfl
    rw [Counts, endJob]
    dsimp only
    cases caller with
    | worker =>
      have hended := Counter.Turn.ended (c := y.counter) hcrew
      show y.counter.Turn (x.workerDone ending).counter
      rw [counter_workerDone, hx]
      exact hended
    | run =>
      refine counts_still ((counter_returned _ _ _ _).trans (hx.trans ?_))
      show Counter.mk y.pool _ y.accepts y.takes = y.counter
      rw [show below.filterMap Frame.post? = y.counter.crew from hcrew.symm]
      rfl
    | wait =>
      refine counts_still ((counter_returned _ _ _ _).trans (hx.trans ?_))
      show Counter.mk y.pool _ y.accepts y.takes = y.counter
      rw [show below.filterMap Frame.post? = y.counter.crew from hcrew.symm]
      rfl

theorem counts_serveStep {last : Bool} {below : List (Frame α)}
    (hs : y.stack = .serving last :: below) : y.Counts (y.serveStep last below) := by
  have hcrew : y.counter.crew = .serving last :: below.filterMap Frame.post? := by
    show y.stack.filterMap Frame.post? = _
    rw [hs]
    rfl
  rw [serveStep, Pool.take?]
  cases hq : y.pool.queue with
  | nil =>
    have hserved := Counter.Turn.served hcrew hq
    rw [Counts]
    dsimp only
    rw [counter_answer]
    exact hserved
  | cons t queue =>
    let x : Yard α := { y with
      pool := { y.pool with queue := queue, active := y.pool.active + 1 } }.add (.taken t.number)
    have hx : x.counter = { y.counter with
        pool := { y.pool with queue := queue, active := y.pool.active + 1 }
        takes := y.takes ++ [t.number] } :=
      counter_taken _ _
    have hbegan := Counter.Turn.began hcrew hq
    rw [Counts]
    dsimp only
    split
    · rename_i job _
      rw [show (x.push (.job job .plain)).counter
        = { x.counter with crew := .working :: x.counter.crew } from rfl, hx]
      exact hbegan
    · split
      · rw [counter_begin_worker, hx]
        exact hbegan
      · rw [show ({ x with pool := x.pool.finish } : Yard α).counter
          = { x.counter with pool := x.pool.finish } from rfl, hx]
        exact .passed hcrew hq

theorem counts_jobStep (hm : y.counter.Manned) {rest : Job α} {task : Task α}
    {below : List (Frame α)} (hs : y.stack = .job rest task :: below) :
    y.Counts (y.jobStep rest task below) := by
  have hgo := fun next => counter_goOn hs next
  cases rest with
  | done => exact counts_endJob hs .finished
  | basic b next =>
    obtain ⟨store, events, hsaid, hstep⟩ := y.jobStep_basic b next task below
    let x : Yard α := { y with stack := .job next task :: below, store, events }
    have hx : x.counter = y.counter := by
      rw [← hgo next]
      rcases hsaid with rfl | ⟨line, rfl⟩
      · rfl
      · exact counter_add ({ y with stack := .job next task :: below } : Yard α) rfl rfl
    rcases hstep with ⟨-, hstep⟩ | ⟨ending, hstep⟩
    · rw [hstep]
      exact counts_still hx
    · have hends := counts_endJob (y := x) rfl ending
      rw [hstep, Counts, ← hx]
      exact hends
  | branch c yes no next => exact counts_still (hgo _)
  | create value job next => exact counts_still ((counter_answer _ _ _).trans (hgo next))
  | submit job next =>
    have hsubmit := counts_enqueue { y with stack := .job next task :: below } "submit" (.script job)
    rw [Counts, hgo next] at hsubmit
    exact hsubmit
  | op o next =>
    have hperform := (performs { y with stack := .job next task :: below } o).counts
      (by rw [hgo next]; exact hm)
    rw [Counts, hgo next] at hperform
    exact hperform

/-- **A turn of the yard is a turn of its counter.** -/
theorem Turn.counts (t : y.Turn z) (hm : y.counter.Manned) : y.Counts z := by
  cases t with
  | outside s => exact counts_issue hm s
  | step h =>
    obtain ⟨-, ⟨last, below, hs, rfl⟩ | ⟨rest, task, below, hs, rfl⟩⟩ := advance_cases h
    · exact counts_serveStep hs
    · exact counts_jobStep hm hs

end Yard

end TestTree
