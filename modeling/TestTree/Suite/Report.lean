/-
Reports: the results of a suite run.

* `Report.allOk` : nothing failed, neither a test nor an after-suite callback;
* `Report.slowest` : the slowest successes, ties in the order of the run;
* `Report.summary` : one line of counts.
-/
import TestTree.Outcome

namespace TestTree

/-- Every outcome of a run, the contexts found, and the failures of after-suite callbacks. -/
structure Report where
  outcomes : List Outcome
  contexts : List Context
  afterSuite : List Cause
  deriving Inhabited

namespace Report

/-- The failed tests, in order. -/
def failed (r : Report) : List Outcome :=
  r.outcomes.filter (·.result.isFailed)

/-- The pending tests, in order. -/
def pending (r : Report) : List Outcome :=
  r.outcomes.filter (·.result.isPending)

/-- No test and no after-suite callback failed. -/
def allOk (r : Report) : Bool :=
  r.afterSuite.isEmpty && !r.outcomes.any (·.result.isFailed)

/-- The `n` slowest successes, slowest first; equal durations stay in order. -/
def slowest (r : Report) (n : Nat) : List Outcome :=
  ((r.outcomes.filter (·.result.isSuccess)).mergeSort fun a b =>
    b.result.micros?.getD 0 ≤ a.result.micros?.getD 0).take n

/-- The counts in one line. -/
def summary (r : Report) : String :=
  let failed := r.failed.length
  let pending := r.pending.length
  let passed := r.outcomes.length - failed - pending
  s!"{r.outcomes.length} tests: {passed} passed, {failed} failed, {pending} pending"
    ++ if r.afterSuite.isEmpty then ""
       else s!", {r.afterSuite.length} after-suite failures"

end Report

end TestTree
