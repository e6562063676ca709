/-
Test bodies and the builders of contexts, as scripts.

* `Body` : what a test does when it runs;
* `Builder` : what a context declares; a builder is run once in every pass and every replay;
* `Builder.declarations` : how many tests, pending tests and contexts a builder can declare.
-/
import TestTree.Cleanup.Resource
import TestTree.Script.Callback
import TestTree.Tree.Location

namespace TestTree

/-- The script of a test. -/
inductive Body where
  | done
  | basic (b : Basic) (next : Body)
  | branch (c : Condition) (yes no next : Body)
  /-- Register a close callback for a resource. -/
  | autoClose (resource : Resource) (close : Callback) (next : Body)
  /-- Register a close callback on its own. -/
  | deferClose (close : Callback) (next : Body)
  /-- Publish an event. -/
  | publish (kind payload : String) (next : Body)
  /-- Log which test this is. -/
  | nameSelf (next : Body)
  /-- Log the description of the test's scope. -/
  | describeSelf (next : Body)
  deriving Inhabited

/-- The script of a context.  A declaration that returns an error ends the builder with it, unless
the error is swallowed. -/
inductive Builder where
  | done
  | basic (b : Basic) (next : Builder)
  | branch (c : Condition) (yes no next : Builder)
  | autoClose (resource : Resource) (close : Callback) (next : Builder)
  | deferClose (close : Callback) (next : Builder)
  | test (name : String) (site : Location) (body : Body) (swallow : Bool) (next : Builder)
  | context (name : String) (site : Location) (inner : Builder) (swallow : Bool) (next : Builder)
  | pending (name : String) (site : Location) (swallow : Bool) (next : Builder)
  /-- Register a callback to run once behind all tests. -/
  | afterSuite (callback : Callback) (next : Builder)
  /-- Log the path of the context that is being built. -/
  | logCurrent (next : Builder)
  deriving Inhabited

/-- The number of tests, pending tests and contexts that a builder can declare, inner ones
included. -/
def Builder.declarations : Builder → Nat
  | done => 0
  | basic _ next => next.declarations
  | branch _ yes no next => yes.declarations + no.declarations + next.declarations
  | autoClose _ _ next => next.declarations
  | deferClose _ next => next.declarations
  | test _ _ _ _ next => next.declarations + 1
  | context _ _ inner _ next => inner.declarations + next.declarations + 1
  | pending _ _ _ next => next.declarations + 1
  | afterSuite _ next => next.declarations
  | logCurrent next => next.declarations

/-- The entry point of a test tree.  `index` tells the roots of a run apart, which may have equal
names. -/
structure RootContext where
  index : Nat
  name : String
  disabled : Bool
  location : Location
  builder : Builder
  deriving Inhabited

namespace RootContext

/-- The root node of the tree. -/
def context (r : RootContext) : Context :=
  .root r.name r.location

/-- The description of the root as a value. -/
def describe (r : RootContext) : String :=
  Text.record "RootContext"
    [("name", Text.quoted r.name), ("disabled", Text.flag r.disabled),
     ("location", r.location.describe)]

end RootContext

end TestTree
