/-
One-shot cells: a job that runs at most once, and the value that it leaves.

* `Cell` : suspended, running, or in one of its final states;
* `Cell.value?` : the value of a cell, or why there is none, once it is final.
-/
import TestTree.Text.Quoted

namespace TestTree

/-- A value that a job produces at most once. -/
inductive Cell (J V : Type) where
  | suspended (job : J)
  | running
  | done (value : V)
  /-- Cancelled before the job started. -/
  | cancelled
  /-- The job panicked. -/
  | abandoned
  /-- Nobody holds the cell any more; its job was dropped. -/
  | discarded
  deriving Inhabited

/-- Why a final cell has no value. -/
inductive Unavailable where
  | cancelled
  | abandoned
  deriving DecidableEq, Inhabited

/-- The reason as one line. -/
def Unavailable.message : Unavailable → String
  | cancelled => "cancelled before start"
  | abandoned => "job terminated without producing a value"

namespace Cell

variable {J V : Type}

/-- Nobody has started or cancelled the job. -/
def isSuspended : Cell J V → Bool
  | suspended _ => true
  | _ => false

/-- The cell reached a final state. -/
def isDone : Cell J V → Bool
  | suspended _ => false
  | running => false
  | _ => true

/-- The value of a final cell, or why there is none. -/
def value? : Cell J V → Option (Except Unavailable V)
  | suspended _ => none
  | running => none
  | done v => some (.ok v)
  | cancelled => some (.error .cancelled)
  | abandoned => some (.error .abandoned)
  | discarded => some (.error .cancelled)

/-- The state in words. -/
def stateName : Cell J V → String
  | suspended _ => "suspended"
  | running => "running"
  | done _ => "done"
  | cancelled => "cancelled"
  | abandoned => "abandoned"
  | discarded => "discarded"

/-- The description of the cell as a value. -/
def describe (c : Cell J V) : String :=
  Text.record "Deferred" [("state", Text.quoted c.stateName)]

end Cell

end TestTree
