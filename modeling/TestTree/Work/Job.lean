/-
Jobs as scripts: what a job can do with cells and with the pool, from inside another job or not.

* `Op` : an operation that brings no script of its own;
* `Job` : the script of a job, which can make more cells and submit more jobs;
* `Step` : one operation of whoever stands outside all jobs;
* `Answer` : what an operation answers.
-/
import TestTree.Script.Basic
import TestTree.Work.Cell
import TestTree.Work.Pool

namespace TestTree

/-- An operation on a cell, which is known by the number of a handle, or on the pool.  An operation
that names no handle finds no cell. -/
inductive Op (α : Type) where
  | completed (value : α)
  | clone (d : Option Nat)
  | drop (d : Option Nat)
  | run (d : Option Nat)
  | wait (d : Option Nat)
  | value (d : Option Nat)
  | cancel (d : Option Nat)
  | isSuspended (d : Option Nat)
  | isDone (d : Option Nat)
  | describe (d : Option Nat)
  | start (d : Option Nat)
  | runPool
  | shutDown
  | isShutDown
  | stats
  | names
  | thread
  /-- An operation on a cell that does not exist. -/
  | unknown (name : String) (d : Option Nat)
  deriving Inhabited

/-- The name of an operation in logs. -/
def Op.name {α : Type} : Op α → String
  | completed _ => "completed"
  | clone _ => "clone"
  | drop _ => "drop"
  | run _ => "run"
  | wait _ => "wait"
  | value _ => "try"
  | cancel _ => "cancel"
  | isSuspended _ => "is_suspended"
  | isDone _ => "is_done"
  | describe _ => "debug"
  | start _ => "start"
  | runPool => "run_pool"
  | shutDown => "shutdown"
  | isShutDown => "is_shut_down"
  | stats => "stats"
  | names => "names"
  | thread => "thread"
  | unknown name _ => name

/-- The script of a job. -/
inductive Job (α : Type) where
  | done
  | basic (b : Basic) (next : Job α)
  | branch (c : Condition) (yes no next : Job α)
  /-- Make a suspended cell; its job yields `value` if no statement of it fails. -/
  | create (value : α) (job : Job α) (next : Job α)
  | submit (job : Job α) (next : Job α)
  | op (o : Op α) (next : Job α)
  deriving Inhabited

namespace Job

variable {α : Type}

/-- One script behind another. -/
def append : Job α → Job α → Job α
  | done, k => k
  | basic b next, k => basic b (next.append k)
  | branch c yes no next, k => branch c yes no (next.append k)
  | create value job next, k => create value job (next.append k)
  | submit job next, k => submit job (next.append k)
  | op o next, k => op o (next.append k)

/-- How many steps a script can take, with the scripts that it brings along. -/
def weight : Job α → Nat
  | done => 0
  | basic _ next => next.weight + 1
  | branch _ yes no next => yes.weight + no.weight + next.weight + 1
  | create _ job next => job.weight + next.weight + 2
  | submit job next => job.weight + next.weight + 3
  | op _ next => next.weight + 3

theorem weight_append (a b : Job α) : (a.append b).weight = a.weight + b.weight := by
  induction a with
  | done => simp [append, weight]
  | basic _ _ ih => simp [append, weight, ih]; omega
  | branch _ _ _ _ _ _ ih => simp [append, weight, ih]; omega
  | create _ _ _ _ ih => simp [append, weight, ih]; omega
  | submit _ _ _ ih => simp [append, weight, ih]; omega
  | op _ _ ih => simp [append, weight, ih]; omega

end Job

/-- An operation from outside all jobs. -/
inductive Step (α : Type) where
  | create (value : α) (job : Job α)
  | submit (job : Job α)
  | op (o : Op α)
  deriving Inhabited

/-- The answer of an operation. -/
inductive Answer (α : Type) where
  | handle (d : Nat)
  | flag (b : Bool)
  | value (v : α)
  | unavailable (reason : Unavailable)
  /-- Not there yet. -/
  | nothing
  | text (s : String)
  | texts (l : List String)
  | ok
  /-- The pool accepts nothing. -/
  | refused
  | stats (s : PoolStats)
  /-- A job that was run in place panicked. -/
  | panicked (message : String)
  | noSuchHandle
  | unknownOperation
  /-- The operation does not come to an end. -/
  | blocked
  deriving Inhabited

/-- Why a pool refuses a job. -/
def Pool.refusal : String :=
  "worker pool has been shut down"

end TestTree
