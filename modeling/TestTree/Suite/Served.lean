/-
Runs of a suite while workers serve the queue.

* `Turns` : how many entries of the queue the workers take before each step of a run;
* `Suite.findServed` : the discoveries of all enabled roots, with the turns of the workers;
* `Suite.runServed` : every test, and then every after-suite callback.

## Design notes

Whoever waits for a handle runs its unit, unless a worker has done so before.  `Turns` leaves open
how fast the workers are; a run without them is the one in which they never come.
-/
import TestTree.Discovery.Served
import TestTree.Suite.Basic

namespace TestTree

/-- How many entries of the queue the workers take before each step of a run. -/
structure Turns where
  /-- While a root is discovered. -/
  discovery : RootContext → Discovery.Turns
  /-- Before a handle is started, when those of all roots are. -/
  first : Handle → Nat
  /-- Before it is started again, when those of its root are. -/
  again : Handle → Nat
  /-- Before it is awaited. -/
  await : Handle → Nat

/-- The workers never come. -/
def Turns.idle : Turns :=
  ⟨fun _ => .idle, fun _ => 0, fun _ => 0, fun _ => 0⟩

namespace World

/-- Start several handles in order; before each one the workers take some entries of the queue. -/
def startAllServed (turns : Handle → Nat) (w : World) (hs : List Handle) : World :=
  hs.foldl (fun w h => (serve (turns h) w).start h) w

/-- Wait for several handles in order; before each one the workers take some entries of the
queue. -/
def waitEachServed (turns : Handle → Nat) (w : World) :
    List Handle → Except Payload (List Outcome) × World
  | [] => (.ok [], w)
  | h :: rest =>
    match (serve (turns h) w).wait h with
    | (.error p, w) => (.error p, w)
    | (.ok outcome, w) =>
      match w.waitEachServed turns rest with
      | (.error p, w) => (.error p, w)
      | (.ok outcomes, w) => (.ok (outcome.toList ++ outcomes), w)

end World

namespace Suite

/-- Discover roots one after another, each whatever becomes of the others, while the workers take
their turns. -/
def discoverEachServed (turns : RootContext → Discovery.Turns) :
    List RootContext → World → List (Except Payload (Except StructuralError Discovery)) × World
  | [], w => ([], w)
  | r :: rest, w =>
    let (found, w) := r.discoverServed (turns r) w
    let (more, w) := discoverEachServed turns rest w
    (found :: more, w)

/-- Discover every enabled root, while the workers take their turns. -/
def findServed (turns : RootContext → Discovery.Turns) (s : Suite) (w : World) :
    Except Payload (Except StructuralError (List Discovery)) × World :=
  let (found, w) := discoverEachServed turns s.enabled (s.skipDisabled w)
  settle found w

/-- Wait for every test of several results in order, where workers come between the steps. -/
def waitResultsServed (turns : Turns) :
    List Discovery → World → Except Payload (List Outcome) × World
  | [], w => (.ok [], w)
  | d :: rest, w =>
    match (w.startAllServed turns.again d.tests).waitEachServed turns.await d.tests with
    | (.error p, w) => (.error p, w)
    | (.ok outcomes, w) =>
      match waitResultsServed turns rest w with
      | (.error p, w) => (.error p, w)
      | (.ok more, w) => (.ok (outcomes ++ more), w)

/-- Discover and run every test, then the after-suite callbacks, where workers come between the
steps. -/
def runServed (turns : Turns) (s : Suite) (w : World) :
    Except Payload (Except StructuralError Report) × World :=
  match s.findServed turns.discovery w with
  | (.error p, w) => (.error p, w)
  | (.ok (.error e), w) => (.ok (.error e), w)
  | (.ok (.ok results), w) =>
    let w := results.foldl (fun w d => w.startAllServed turns.first d.tests) w
    match waitResultsServed turns results w with
    | (.error p, w) => (.error p, w.dropResults results)
    | (.ok outcomes, w) =>
      let (afterSuite, w) := runAfterSuites results w
      let report : Report := ⟨outcomes, (results.map (·.contexts)).flatten, afterSuite⟩
      (.ok (.ok report), (w.trace .info report.summary []).dropResults results)

end Suite

end TestTree
