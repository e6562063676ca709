/-
Test units: what runs when a test is started.

* `TestUnit` : a direct unit owns the shelf of its discovery pass, a replayed one goes through the
  builder again, a scripted one is made by hand.
-/
import TestTree.Unit.Replay

namespace TestTree

/-- What runs when a test is started.  The shelf of a direct unit is known by its number, because a
pass that goes on behind a swallowed structural error can give it to more than one unit.  A unit
made by hand makes its result behind its script, which may be a panic as well. -/
inductive TestUnit where
  | direct (test : Description) (body : Body) (scope : Scope) (shelf : Nat)
  | replayed (test : Description) (root : RootContext)
  | scripted (test : Description) (script : Callback) (result : Except Payload TestResult)
  deriving Inhabited

/-- The test of a unit. -/
def TestUnit.test : TestUnit → Description
  | direct d .. => d
  | replayed d _ => d
  | scripted d .. => d

end TestTree
