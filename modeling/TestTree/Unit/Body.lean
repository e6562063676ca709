/-
Running the body of a test.

* `Body.run` : the script, next to the shelf that it may register callbacks on;
* `Body.execute` : run a body and turn an error or a panic into a failure;
* `conclude` : the result of a unit from its body and its cleanup.
-/
import TestTree.Cleanup.Shelf
import TestTree.Script.Body

namespace TestTree

/-- What a running test knows: itself, its listener, and whose variables it sees. -/
structure TestScope where
  test : Description
  listener : Listener
  scope : Scope
  deriving Inhabited

/-- The description of the scope as a value. -/
def TestScope.describe (t : TestScope) : String :=
  Text.record "TestScope" [("test", t.test.describe)]

namespace Body

/-- Run a body. -/
def run (t : TestScope) : Body → Closet Closure → Ran Cause (Closet Closure)
  | done, c => ⟨.finished, c⟩
  | basic b next, c =>
    ((c.perform t.scope none b).mapError Thrown.toCause).andThen (next.run t)
  | branch cond yes no next, c =>
    (if c.book.holds t.scope cond then yes.run t c else no.run t c).andThen (next.run t)
  | autoClose r close next, c => next.run t (c.autoClose r ⟨close, t.scope⟩)
  | deferClose close next, c => next.run t (c.deferClose ⟨close, t.scope⟩)
  | publish kind payload next, c =>
    match c.book.notify t.listener (.event t.test kind payload) with
    | (some p, book) => ⟨.panicked p, { c with book }⟩
    | (none, book) => next.run t { c with book }
  | nameSelf next, c =>
    next.run t { c with book := c.book.say t.scope.root ("self " ++ t.test.display) }
  | describeSelf next, c =>
    next.run t { c with book := c.book.say t.scope.root t.describe }

/-- The failure of a body that ended so, if any. -/
def failure? : Ending Cause → Option Failure
  | .finished => none
  | .failed c => some (.ofCause .testBody c)
  | .panicked p => some (.ofPanic .panic p)

/-- Run a body and say what went wrong, if anything did. -/
def execute (t : TestScope) (b : Body) (c : Closet Closure) : Option Failure × Closet Closure :=
  let ran := b.run t { c with book := c.book.add (.ran t.scope.root t.test.path) }
  (failure? ran.ending, ran.state)

end Body

/-- The result of a unit.  The failure of the body stays primary and teardown errors become notes;
a body that passed fails by its first teardown error. -/
def conclude (body : Option Failure) (teardown : List TeardownError) : TestResult :=
  match body with
  | some f => .failed (f.withTeardown teardown)
  | none =>
    match Failure.ofTeardown? teardown with
    | some f => .failed f
    | none => .success 0

/-- Run what is on the shelf of a unit, and conclude. -/
def Closet.conclude (c : Closet Closure) (body : Option Failure) : TestResult × Notebook :=
  let (errors, book) := c.book.sweep c.shelf
  (TestTree.conclude body errors, book)

end TestTree
