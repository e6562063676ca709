/-
Discovery of one root: passes over its builder until nothing is left.

* `Discovery` : contexts, handles and after-suite callbacks of a root;
* `RootContext.runPass` : one pass;
* `RootContext.conclude?` : how discovery ends behind a pass, unless another one follows;
* `RootContext.discover` : all passes;
* `Discovery.runAfterSuite` : the callbacks behind all tests, once.

## Design notes

A pass that leaves contexts for another one has made a handle, and handles have different paths;
so there are never more passes than declarations in the builder, and one.
-/
import TestTree.Discovery.Visit

namespace TestTree

/-- Everything discovery learned about one root. -/
structure Discovery where
  /-- The root first, then its sub-contexts by declaration site. -/
  contexts : List Context
  /-- One handle for each test, in the order of discovery. -/
  tests : List Handle
  /-- Callbacks to run once behind all tests. -/
  afterSuite : List Closure
  deriving Inhabited

/-- The end of a pass: how the root's builder ended, whether it left contexts, its direct test, and
the number of its shelf. -/
structure PassEnd where
  ending : Ending BuildError
  left : Bool
  direct : Option Handle
  shelf : Nat
  search : Search
  world : World
  deriving Inhabited

/-- The end of a pass whose builder ended so; what is on the shelf of the pass is put back. -/
def PassEnd.of (shelf : Nat) (ran : Ran BuildError Pass) : PassEnd where
  ending := ran.ending
  left := ran.state.visit.left
  direct := ran.state.search.direct
  shelf := shelf
  search := { ran.state.search with direct := none }
  world := ran.state.world.putCloset shelf ran.state.closet

/-- Close a shelf and warn about every error. -/
def World.closeWarning (w : World) (shelf : Nat) (message : String) (root : String) : World :=
  let (errors, w) := w.closeShelf shelf
  errors.foldl (fun w e => w.trace .warn (message ++ e.display) [("root", root)]) w

namespace RootContext

/-- What does not change during the pass that begins in the world `w`. -/
def openedScope (r : RootContext) (w : World) : PassScope :=
  ⟨r, ⟨r.index, w.book.invocations⟩, w.shelves.length⟩

/-- The pass in which the builder of the root is entered, with a new shelf. -/
def opened (r : RootContext) (search : Search) (w : World) : Pass :=
  ⟨search.visit r.context, search, [],
    { w with book := (w.book.invoke r r.context.path).2, shelves := w.shelves ++ [[]] }⟩

/-- One pass over the builder of a root. -/
def runPass (r : RootContext) (search : Search) (w : World) : PassEnd :=
  .of w.shelves.length (r.builder.visit (r.openedScope w) (r.opened search w))

/-- Discovery ends with a structural error: handles that were not started are cancelled, and what is
registered is closed. -/
def abort (r : RootContext) (e : PassEnd) (error : StructuralError) :
    Except Payload (Except StructuralError Discovery) × World :=
  match e.world.cancelAll e.search.tests with
  | (.error p, w) => (.error p, w.dropAll e.search.tests)
  | (.ok cancelled, w) =>
    let w := w.closeWarning e.shelf "teardown after aborted discovery failed: " r.name
    let w := w.trace .debug ("discovery aborted: " ++ error.message)
      [("root", r.name), ("cancelled", toString cancelled)]
    (.ok (.error error), w)

/-- Discovery ends with a result. -/
def finish (r : RootContext) (passes : Nat) (search : Search) (w : World) :
    Except Payload (Except StructuralError Discovery) × World :=
  let w := w.trace .debug "discovery finished"
    [("root", r.context.display), ("passes", toString passes),
     ("tests", toString search.tests.length),
     ("contexts", toString (search.found.length + 1))]
  let sorted := search.foundInOrder.mergeSort fun a b => a.location.le b.location
  (.ok (.ok ⟨r.context :: sorted, search.tests, search.afterSuite⟩), w)

/-- The root's builder failed: the root becomes a failed test in itself, and discovery ends. -/
def finishFailed (r : RootContext) (passes : Nat) (failure : Failure) (search : Search) (w : World) :
    Except Payload (Except StructuralError Discovery) × World :=
  match w.completed ⟨⟨r.context, r.name, r.location⟩, .failed failure⟩ with
  | (.error p, w) => (.error p, w.dropAll search.tests)
  | (.ok h, w) => r.finish passes { search with tests := search.tests ++ [h] } w

/-- The structural error that a pass ends discovery with.  The first repeated name wins over what
the builder returned. -/
def fatal? (e : PassEnd) : Option StructuralError :=
  match e.ending, e.search.fatal with
  | _, some error => some error
  | .failed (.structural error), none => some error
  | _, none => none

/-- The failure of a root's builder that ended in an ordinary way. -/
def failure? : Ending BuildError → Option Failure
  | .failed (.failed c) => some (.ofCause .contextBuild c)
  | .panicked p => some (.ofPanic .contextBuild p)
  | _ => none

/-- The root's builder failed in a pass: the direct test is released, which owns what was
registered, or this is closed. -/
def concludeFailed (r : RootContext) (passes : Nat) (failure : Failure) (e : PassEnd) :
    Except Payload (Except StructuralError Discovery) × World :=
  match e.direct with
  | some h => r.finishFailed passes failure e.search (e.world.release h)
  | none =>
    let closed := e.world.closeShelf e.shelf
    r.finishFailed passes (failure.withTeardown closed.1) e.search closed.2

/-- The world behind a pass that ended without an error: the direct test is released, or what was
registered is closed. -/
def behind (r : RootContext) (e : PassEnd) : World :=
  match e.direct with
  | some h => e.world.release h
  | none => e.world.closeWarning e.shelf "teardown after discovery pass failed: " r.context.display

/-- What a pass that ended without an error hands on. -/
def handOn (r : RootContext) (e : PassEnd) : Search :=
  { e.search with investigated := e.search.investigated ++ [r.context.path] }

/-- How discovery ends behind `passes` passes, of which the last one ended as `e`; nothing if
another pass follows. -/
def conclude? (r : RootContext) (passes : Nat) (e : PassEnd) :
    Option (Except Payload (Except StructuralError Discovery) × World) :=
  match fatal? e, failure? e.ending with
  | some error, _ => some (r.abort e error)
  | none, some failure => some (r.concludeFailed passes failure e)
  | none, none => if e.left then none else some (r.finish passes (r.handOn e) (r.behind e))

/-- At most `fuel` more passes, behind `passes` of them. -/
def discoverFrom (r : RootContext) : (fuel : Nat) → (passes : Nat) → Search → World →
    Except Payload (Except StructuralError Discovery) × World
  | 0, passes, search, w => r.finish passes search w
  | fuel + 1, passes, search, w =>
    let e := r.runPass search w
    match r.conclude? (passes + 1) e with
    | some ended => ended
    | none => r.discoverFrom fuel (passes + 1) (r.handOn e) (r.behind e)

/-- Discover every context and test of a root.  The result is a discovery or a structural error,
unless a listener panics where no builder catches it. -/
def discover (r : RootContext) (w : World) :
    Except Payload (Except StructuralError Discovery) × World :=
  r.discoverFrom (r.builder.declarations + 1) 0 {} w

/-- The description of the engine for a root as a value. -/
def describeEngine (r : RootContext) (w : World) : String :=
  Text.record "DiscoveryEngine" [("root", r.describe), ("scheduler", w.describeScheduler)]

end RootContext

namespace Discovery

/-- The root context. -/
def root (d : Discovery) : Context :=
  d.contexts.headD default

/-- The handle of a test. -/
def handle? (d : Discovery) (test : Description) : Option Handle :=
  d.tests.find? fun h => h.test == test

/-- The tests declared directly in a context. -/
def testsIn (d : Discovery) (c : Context) : List Handle :=
  d.tests.filter fun h => h.test.container == c

/-- The contexts declared directly in a context. -/
def children (d : Discovery) (c : Context) : List Context :=
  d.contexts.filter fun k =>
    match k.parent? with
    | some p => p == c
    | none => false

/-- Run callbacks behind all tests, and collect the causes of those that failed. -/
def runCallbacks (root : String) : List Closure → World → List Cause × World
  | [], w => ([], w)
  | c :: rest, w =>
    let ran := c.script.run c.scope none w.book
    let w := { w with book := ran.state }
    let cause? : Option Cause :=
      match ran.ending with
      | .finished => none
      | .failed t => some t.toCause
      | .panicked p => some p.toCause
    match cause? with
    | none => runCallbacks root rest w
    | some cause =>
      let w := w.trace .warn ("after-suite callback failed: " ++ cause.oneLine) [("root", root)]
      let (causes, w) := runCallbacks root rest w
      (cause :: causes, w)

/-- Run the callbacks behind all tests; a second call finds none. -/
def runAfterSuite (d : Discovery) (w : World) : List Cause × Discovery × World :=
  let (causes, w) := runCallbacks d.root.display d.afterSuite w
  (causes, { d with afterSuite := [] }, w)

/-- The description of the result as a value. -/
def describe (d : Discovery) : String :=
  Text.record "DiscoveryResult"
    [("contexts", Text.items (d.contexts.map (·.describe))),
     ("tests", toString d.tests.length), ("after_suite", toString d.afterSuite.length)]

end Discovery

end TestTree
