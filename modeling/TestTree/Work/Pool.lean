/-
A pool of workers that serve a queue in the order of submission.

* `Pool` : the queue, the shutdown flag and the counters;
* `Pool.submit?` : a pool that was shut down accepts nothing;
* `Pool.take?`, `Pool.finish` : a worker begins and ends a job;
* `Pool.held`, `Pool.letGo`, `Pool.hold` : workers that are kept busy by a job each until the queue is
  to be served;
* `Pool.startPanic?` : workers that are too many, or whose names no thread can have, are not started.

## Design notes

The model serves the queue with one worker at a time.  Every accepted job is queued, active or
completed, which is what `accepted` counts.
-/
import TestTree.Fault.Cause

namespace TestTree

/-- A snapshot of the counters. -/
structure PoolStats where
  queueDepth : Nat
  activeJobs : Nat
  jobsCompleted : Nat
  workerCount : Nat
  deriving DecidableEq, Inhabited

/-- The description of the counters as a value. -/
def PoolStats.describe (s : PoolStats) : String :=
  Text.record "PoolStats"
    [("queue_depth", toString s.queueDepth), ("active_jobs", toString s.activeJobs),
     ("jobs_completed", toString s.jobsCompleted), ("worker_count", toString s.workerCount)]

/-- A pool of workers; the queue is kept oldest first. -/
structure Pool (ε : Type) where
  workers : Nat
  queue : List ε := []
  shutDown : Bool := false
  active : Nat := 0
  completed : Nat := 0
  accepted : Nat := 0
  deriving Inhabited

namespace Pool

variable {ε : Type}

/-- A pool of idle workers; there is at least one. -/
def idle (workers : Nat) : Pool ε :=
  { workers := max workers 1 }

/-- Give every worker a job that keeps it busy. -/
def hold (p : Pool ε) : Pool ε :=
  { p with active := p.active + p.workers, accepted := p.accepted + p.workers }

/-- The jobs that keep the workers busy end. -/
def letGo (p : Pool ε) : Pool ε :=
  { p with active := 0, completed := p.completed + p.active }

/-- A pool whose workers are all kept busy. -/
def held (workers : Nat) : Pool ε :=
  (idle workers).hold

/-- Queue a job, unless the pool was shut down. -/
def submit? (p : Pool ε) (job : ε) : Option (Pool ε) :=
  if p.shutDown then none
  else some { p with queue := p.queue ++ [job], accepted := p.accepted + 1 }

/-- A worker takes the oldest job. -/
def take? (p : Pool ε) : Option (ε × Pool ε) :=
  match p.queue with
  | [] => none
  | job :: rest => some (job, { p with queue := rest, active := p.active + 1 })

/-- A worker is done with its job. -/
def finish (p : Pool ε) : Pool ε :=
  { p with active := p.active - 1, completed := p.completed + 1 }

/-- Accept nothing from now on. -/
def refuse (p : Pool ε) : Pool ε :=
  { p with shutDown := true }

/-- The counters. -/
def stats (p : Pool ε) : PoolStats :=
  ⟨p.queue.length, p.active, p.completed, p.workers⟩

/-- The name of a worker. -/
def workerName (threadPrefix : String) (i : Nat) : String :=
  threadPrefix ++ "-" ++ toString i

/-- A thread cannot have a name with a zero byte, as such a byte ends a name: starting it panics.  The
panic tells where the first zero stands, and the bytes of the name. -/
def namePanic? (name : String) : Option Payload :=
  let bytes := name.toList.flatMap String.utf8EncodeChar
  (bytes.findIdx? fun b => b == 0).map fun i =>
    .made ("thread name may not contain interior null bytes: "
      ++ Text.wrapped "NulError" (toString i ++ ", " ++ Text.items (bytes.map fun b => toString b)))

/-- The largest number of workers that a pool can keep a list of, at 24 bytes each and less than
`2 ^ 63` bytes in all. -/
def maxWorkers : Nat :=
  384307168202282325

/-- The panic in which starting the workers of a pool ends: first there has to be room for the list of
them.  Their names differ behind the prefix only, so it is the first worker that is not started. -/
def startPanic? (workers : Nat) (threadPrefix : String) : Option Payload :=
  if maxWorkers < workers then some (.fixed "capacity overflow")
  else namePanic? (workerName threadPrefix 0)

end Pool

end TestTree
