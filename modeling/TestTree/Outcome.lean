/-
Results of tests.

* `TestResult` : success with its duration, failure with its cause, or pending;
* `TestResult.timed` : a success with a measured duration, in whole microseconds of 64 bits; a
  duration itself has 64 bits for its seconds;
* `Outcome` : a test with its result.
-/
import TestTree.Tree.Description
import TestTree.Fault.Failure

namespace TestTree

/-- The terminal result of a test. -/
inductive TestResult where
  | success (micros : Nat)
  | failed (failure : Failure)
  | pending
  deriving Inhabited

namespace TestResult

/-- The longest duration that a result can hold, the largest number of 64 bits. -/
def maxMicros : Nat :=
  18446744073709551615

/-- The largest number of whole seconds of a duration. -/
def maxSecs : Nat :=
  18446744073709551615

/-- A success that took the given time.  Nanoseconds beyond a second are carried over, and a panic
says that there are too many seconds then; a duration of too many microseconds counts as the
longest one. -/
def timed (secs nanos : Nat) : Except Payload TestResult :=
  if secs + nanos / 1000000000 ≤ maxSecs then
    .ok (success (min maxMicros (secs * 1000000 + nanos / 1000)))
  else .error (.made "overflow in Duration::new")

/-- The body and the cleanup went well. -/
def isSuccess : TestResult → Bool
  | success _ => true
  | _ => false

/-- Something failed. -/
def isFailed : TestResult → Bool
  | failed _ => true
  | _ => false

/-- Declared, and not to be run. -/
def isPending : TestResult → Bool
  | pending => true
  | _ => false

/-- The failure, if there is one. -/
def failure? : TestResult → Option Failure
  | failed f => some f
  | _ => none

/-- The duration of a success. -/
def micros? : TestResult → Option Nat
  | success n => some n
  | _ => none

/-- The description of the result as a value. -/
def describe : TestResult → String
  | success n => Text.record "Success" [("duration_micros", toString n)]
  | failed f => Text.wrapped "Failed" f.describe
  | pending => "Pending"

end TestResult

/-- A test with its result. -/
structure Outcome where
  test : Description
  result : TestResult
  deriving Inhabited

namespace Outcome

/-- The outcome as one line. -/
def display (o : Outcome) : String :=
  match o.result with
  | .success n => o.test.display ++ " ... ok (" ++ toString n ++ "us)"
  | .failed f => o.test.display ++ " ... FAILED: " ++ f.message
  | .pending => o.test.display ++ " ... pending"

/-- The description of the outcome as a value. -/
def describe (o : Outcome) : String :=
  Text.record "TestOutcome" [("test", o.test.describe), ("result", o.result.describe)]

end Outcome

end TestTree
