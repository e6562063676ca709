/-
What discovery carries from pass to pass, and what one visit of a context keeps to itself.

* `Search` : names processed, contexts built, handles and callbacks found so far;
* `Visit` : names declared and tests met during one visit of one context;
* `Pass` : both, with the shelf and the world of the pass;
* `Pass.declareTest`, `declarePending`, `declareAfterSuite` : declarations that enter no context.

## Design notes

A declaration is known by its names from the root down.  Whatever was processed once is skipped by
every later pass, and the same path always means the node that was made when it was first entered.
The first structural error is kept in `fatal`, so that a builder cannot lose it.
-/
import TestTree.World.Basic

namespace TestTree

/-- What discovery of one root carries from pass to pass. -/
structure Search where
  /-- Tests, pending tests, and contexts that were finished or failed. -/
  processed : List NamePath := []
  /-- Contexts whose builder finished at least once. -/
  investigated : List NamePath := []
  /-- Contexts fully discovered, in the order of discovery. -/
  found : List Context := []
  /-- One handle for each test, in the order of discovery. -/
  tests : List Handle := []
  /-- Callbacks to run behind all tests. -/
  afterSuite : List Closure := []
  /-- Contexts in the order in which they were first entered. -/
  entered : List Context := []
  /-- The direct test of the current pass. -/
  direct : Option Handle := none
  /-- The first repeated name, even if a builder swallowed the error. -/
  fatal : Option StructuralError := none
  deriving Inhabited

namespace Search

/-- The node of a sub-context: the one that was made when its path was first entered, or a new
one. -/
def intern (s : Search) (place : Place) (site : Location) : Context × Search :=
  match s.entered.find? fun c => c.path == place.path with
  | some c => (c, s)
  | none =>
    let c := Context.child place.container place.name site
    (c, { s with entered := s.entered ++ [c] })

/-- The contexts found, in the order in which they were first entered. -/
def foundInOrder (s : Search) : List Context :=
  s.entered.filter fun c => s.found.any fun f => f.path == c.path

end Search

/-- One visit of one context during one pass. -/
structure Visit where
  context : Context
  /-- The names declared so far. -/
  names : List String := []
  /-- The builder of the context has not finished in an earlier pass. -/
  isFirst : Bool
  /-- A test was met, or a context failed, here or in a context that was entered. -/
  ran : Bool := false
  /-- Contexts were left for another pass. -/
  left : Bool := false
  deriving Inhabited

/-- A visit of `c` begins. -/
def Search.visit (s : Search) (c : Context) : Visit :=
  { context := c, isFirst := !s.investigated.contains c.path }

/-- What does not change during a pass. -/
structure PassScope where
  root : RootContext
  scope : Scope
  /-- The number of the shelf that a direct unit of the pass owns. -/
  shelf : Nat
  deriving Inhabited

/-- A pass on its way; its shelf is put back into the world when it ends. -/
structure Pass where
  visit : Visit
  search : Search
  shelf : Shelf Closure
  world : World
  deriving Inhabited

namespace Pass

/-- The shelf of the pass next to its notebook. -/
def closet (p : Pass) : Closet Closure :=
  ⟨p.shelf, p.world.book⟩

/-- The pass with another shelf and notebook. -/
def withCloset (p : Pass) (c : Closet Closure) : Pass :=
  { p with shelf := c.shelf, world := { p.world with book := c.book } }

/-- Perform a basic statement of a builder. -/
def perform (p : Pass) (s : Scope) (b : Basic) : Ran BuildError Pass :=
  ((p.closet.perform s none b).mapError Thrown.toBuildError).mapState p.withCloset

/-- A name directly in the context that is visited. -/
def place (p : Pass) (name : String) : Place :=
  ⟨p.visit.context, name⟩

/-- Whether a name of this context was processed, here or in an earlier pass. -/
def isProcessed (p : Pass) (name : String) : Bool :=
  p.search.processed.contains (p.place name).path

/-- A name of this context is processed from now on. -/
def process (p : Pass) (name : String) : Pass :=
  { p with
    search := { p.search with processed := p.search.processed ++ [(p.place name).path] } }

/-- One more handle was found. -/
def addTest (p : Pass) (h : Handle) : Pass :=
  { p with search := { p.search with tests := p.search.tests ++ [h] } }

/-- Take a name for a declaration.  A name can be declared once in each visit; the first error is
kept. -/
def claim (p : Pass) (name : String) : Ran BuildError Pass :=
  if p.visit.names.contains name then
    let e : StructuralError := .duplicateName name p.visit.context.display
    ⟨.failed (.structural e),
      { p with search := { p.search with fatal := some (p.search.fatal.getD e) } }⟩
  else ⟨.finished, { p with visit := { p.visit with names := name :: p.visit.names } }⟩

/-- A handle for a result that is known while builders run; the listener hears of it. -/
def complete (p : Pass) (o : Outcome) : Ran BuildError Pass :=
  match p.world.completed o with
  | (.error panic, world) => ⟨.panicked panic, { p with world }⟩
  | (.ok h, world) => ⟨.finished, { p with world }.addTest h⟩

/-- Declare a test.  The first new test of a pass runs directly and owns what the pass registers;
each later one is replayed. -/
def declareTest (s : PassScope) (name : String) (site : Location) (body : Body) (p : Pass) :
    Ran BuildError Pass :=
  (p.claim name).andThen fun p =>
    if p.isProcessed name then ⟨.finished, p⟩
    else
      let p := p.process name
      let test : Description := ⟨p.visit.context, name, site⟩
      if p.visit.ran then
        let (h, world) := p.world.schedule (.replayed test s.root)
        ⟨.finished, { p with world }.addTest h⟩
      else
        let (h, world) := p.world.scheduleSuspended (.direct test body s.scope s.shelf)
        let p := { p with
          world, visit := { p.visit with ran := true }, search := { p.search with direct := some h } }
        ⟨.finished, p.addTest h⟩

/-- Declare a test that is not to be run. -/
def declarePending (name : String) (site : Location) (p : Pass) : Ran BuildError Pass :=
  (p.claim name).andThen fun p =>
    if p.isProcessed name then ⟨.finished, p⟩
    else (p.process name).complete ⟨⟨p.visit.context, name, site⟩, .pending⟩

/-- Register a callback behind all tests; only the first visit of a context does. -/
def declareAfterSuite (s : PassScope) (callback : Callback) (p : Pass) : Pass :=
  if p.visit.isFirst then
    { p with
      search := { p.search with afterSuite := p.search.afterSuite ++ [⟨callback, s.scope⟩] } }
  else p

end Pass

end TestTree
