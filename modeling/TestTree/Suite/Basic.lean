/-
Suites: several roots that are discovered and run together.

* `Suite.ofRoots`, `Suite.withSettings` : a suite has roots, and settings without a fault;
* `Suite.find` : the discoveries of all enabled roots, or the first structural error;
* `Suite.run` : every test, and then every after-suite callback;
* `Suite.onOwnPool` : a pool of the suite's own for one run.

## Design notes

Roots share the world: one pool, one listener, one notebook.  They are discovered one after another;
nothing that a root can see depends on the others.  If one root is wrong, every test of the
others that has not been started is cancelled.
-/
import TestTree.Discovery.Passes
import TestTree.Suite.Report
import TestTree.Suite.Settings

namespace TestTree

namespace World

/-- A pool of one's own takes the place of the pool, unless its workers cannot be started. -/
def openPool (w : World) (workers : Nat) (threadPrefix : String) : Except Payload World :=
  match Pool.startPanic? workers threadPrefix with
  | some p => .error p
  | none =>
    let pool : Pool Nat := .idle workers
    .ok ({ w with pool }.trace .debug "worker pool started"
      [("workers", toString pool.workers), ("prefix", threadPrefix)])

/-- A pool of one's own is shut down when nobody holds it any more. -/
def closePool (w : World) : World :=
  w.shutDownPool

/-- Several results are let go of, in order. -/
def dropResults (w : World) (ds : List Discovery) : World :=
  ds.foldl (fun w d => w.dropAll d.tests) w

end World

/-- A set of roots that are run together. -/
structure Suite where
  roots : List RootContext
  settings : Settings := {}
  deriving Inhabited

namespace Suite

/-- A suite of the given roots; there has to be one. -/
def ofRoots (roots : List RootContext) : Except StructuralError Suite :=
  if roots.isEmpty then .error .emptySuite else .ok { roots }

/-- A suite of the roots of several providers. -/
def ofProviders (providers : List (List RootContext)) : Except StructuralError Suite :=
  ofRoots providers.flatten

/-- The suite with other settings. -/
def withSettings (s : Suite) (settings : Settings) : Except StructuralError Suite :=
  match settings.validate with
  | .error e => .error e
  | .ok settings => .ok { s with settings }

/-- The roots that take part. -/
def enabled (s : Suite) : List RootContext :=
  s.roots.filter fun r => !r.disabled

/-- Tell about the roots that do not take part. -/
def skipDisabled (s : Suite) (w : World) : World :=
  (s.roots.filter (·.disabled)).foldl (fun w r =>
    w.trace .info "skipping disabled root context" [("root", r.name)]) w

/-- Discover roots one after another, each whatever becomes of the others. -/
def discoverEach :
    List RootContext → World → List (Except Payload (Except StructuralError Discovery)) × World
  | [], w => ([], w)
  | r :: rest, w =>
    let (found, w) := r.discover w
    let (more, w) := discoverEach rest w
    (found :: more, w)

/-- Cancel what has not been started in any of several results. -/
def cancelResults : List Discovery → World → Option Payload × World
  | [], w => (none, w)
  | d :: rest, w =>
    match w.cancelAll d.tests with
    | (.error p, w) => (some p, w)
    | (.ok _, w) => cancelResults rest w

/-- The results among what discoveries ended with, in order. -/
def results (found : List (Except Payload (Except StructuralError Discovery))) : List Discovery :=
  found.filterMap fun
    | .ok (.ok d) => some d
    | _ => none

/-- The first panic that left a discovery. -/
def firstPanic? (found : List (Except Payload (Except StructuralError Discovery))) :
    Option Payload :=
  found.findSome? fun
    | .error p => some p
    | _ => none

/-- The first structural error that a discovery ended with. -/
def firstError? (found : List (Except Payload (Except StructuralError Discovery))) :
    Option StructuralError :=
  found.findSome? fun
    | .ok (.error e) => some e
    | _ => none

/-- What a suite finds whose discoveries ended so: their results, or the first structural error,
when nothing of the results is left to be run. -/
def settle (found : List (Except Payload (Except StructuralError Discovery))) (w : World) :
    Except Payload (Except StructuralError (List Discovery)) × World :=
  let results := results found
  match firstPanic? found, firstError? found with
  | some p, _ => (.error p, w.dropResults results)
  | none, some e =>
    match cancelResults results w with
    | (some p, w) => (.error p, w.dropResults results)
    | (none, w) => (.ok (.error e), w.dropResults results)
  | none, none => (.ok (.ok results), w)

/-- Discover every enabled root. -/
def find (s : Suite) (w : World) :
    Except Payload (Except StructuralError (List Discovery)) × World :=
  let (found, w) := discoverEach s.enabled (s.skipDisabled w)
  settle found w

/-- Wait for every test of several results, in order. -/
def waitResults : List Discovery → World → Except Payload (List Outcome) × World
  | [], w => (.ok [], w)
  | d :: rest, w =>
    match w.waitAll d.tests with
    | (.error p, w) => (.error p, w)
    | (.ok outcomes, w) =>
      match waitResults rest w with
      | (.error p, w) => (.error p, w)
      | (.ok more, w) => (.ok (outcomes ++ more), w)

/-- Run the after-suite callbacks of several results, in order. -/
def runAfterSuites : List Discovery → World → List Cause × World
  | [], w => ([], w)
  | d :: rest, w =>
    let (causes, _, w) := d.runAfterSuite w
    let (more, w) := runAfterSuites rest w
    (causes ++ more, w)

/-- Discover and run every test, then the after-suite callbacks.  Every root's tests are queued
before anything is waited for. -/
def run (s : Suite) (w : World) : Except Payload (Except StructuralError Report) × World :=
  match s.find w with
  | (.error p, w) => (.error p, w)
  | (.ok (.error e), w) => (.ok (.error e), w)
  | (.ok (.ok results), w) =>
    let w := results.foldl (fun w d => w.startAll d.tests) w
    match waitResults results w with
    | (.error p, w) => (.error p, w.dropResults results)
    | (.ok outcomes, w) =>
      let (afterSuite, w) := runAfterSuites results w
      let report : Report := ⟨outcomes, (results.map (·.contexts)).flatten, afterSuite⟩
      (.ok (.ok report), (w.trace .info report.summary []).dropResults results)

/-- Do something on a pool of the suite's own, which is shut down behind it.  The default number of
workers is one.  If the pool cannot be opened, nothing else happens. -/
def onOwnPool {α : Type} (s : Suite) (f : World → Except Payload α × World) (w : World) :
    Except Payload α × World :=
  match w.openPool (s.settings.workers.getD 1) s.settings.threadPrefix with
  | .error p => (.error p, w)
  | .ok w =>
    let (a, w) := f w
    (a, w.closePool)

/-- The description of the suite as a value. -/
def describe (s : Suite) : String :=
  Text.record "Suite"
    [("roots", Text.items (s.roots.map (·.describe))), ("config", s.settings.describe)]

end Suite

end TestTree
