/-
Failures: what went wrong in a test, with what went wrong while cleaning up after it.

* `Failure` : an origin, a primary cause, and teardown errors as notes;
* `Failure.ofTeardown?` : the first of several teardown errors becomes the cause;
* `Failure.pretty` : several lines, the cause chain first and then the notes.
-/
import TestTree.Fault.Cause

namespace TestTree

/-- Where a failure came from. -/
inductive Origin where
  | testBody
  | panic
  | contextBuild
  | teardown
  | cancelled
  | replayMismatch
  deriving DecidableEq, Inhabited

namespace Origin

/-- The origin in words. -/
def display : Origin → String
  | testBody => "test body"
  | panic => "panic"
  | contextBuild => "context build"
  | teardown => "teardown"
  | cancelled => "cancelled"
  | replayMismatch => "replay mismatch"

/-- The description of the origin as a value. -/
def describe : Origin → String
  | testBody => "TestBody"
  | panic => "Panic"
  | contextBuild => "ContextBuild"
  | teardown => "Teardown"
  | cancelled => "Cancelled"
  | replayMismatch => "ReplayMismatch"

end Origin

/-- A close callback that failed, by the name of its resource's kind. -/
structure TeardownError where
  resource : String
  cause : Cause
  deriving DecidableEq, Inhabited

namespace TeardownError

/-- The error as one line. -/
def display (e : TeardownError) : String :=
  "failed to close " ++ e.resource ++ ": " ++ e.cause.oneLine

/-- The description of the error as a value. -/
def describe (e : TeardownError) : String :=
  Text.wrapped "TeardownError" (e.resource ++ ": " ++ e.cause.oneLine)

end TeardownError

/-- The captured cause of a failed test. -/
structure Failure where
  origin : Origin
  cause : Cause
  teardown : List TeardownError
  deriving DecidableEq, Inhabited

namespace Failure

/-- A failure without notes. -/
def ofCause (origin : Origin) (cause : Cause) : Failure :=
  ⟨origin, cause, []⟩

/-- A failure from a caught panic. -/
def ofPanic (origin : Origin) (p : Payload) : Failure :=
  ofCause origin p.toCause

/-- Teardown errors on their own: the first is the cause, the others are notes. -/
def ofTeardown? : List TeardownError → Option Failure
  | [] => none
  | e :: rest => some ⟨.teardown, e.cause, rest⟩

/-- More teardown errors as notes. -/
def withTeardown (f : Failure) (errors : List TeardownError) : Failure :=
  { f with teardown := f.teardown ++ errors }

/-- The primary cause in one line. -/
def message (f : Failure) : String :=
  f.cause.oneLine

/-- The cause chain, one line each, then the notes. -/
def pretty (f : Failure) : String :=
  f.cause.headline ++ " (" ++ f.origin.display ++ ")"
    ++ String.join (f.cause.chain.tail.map ("\n\tcaused by: " ++ ·))
    ++ String.join (f.teardown.map fun e => "\n\tteardown: " ++ e.display)

/-- The description of the failure as a value. -/
def describe (f : Failure) : String :=
  Text.record "Failure"
    [("origin", f.origin.describe), ("cause", Text.quoted f.message),
     ("teardown", Text.items (f.teardown.map (·.describe)))]

end Failure

end TestTree
