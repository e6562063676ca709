/-
Discovery of one root while workers serve the queue.

* `Discovery.Turns` : how many entries of the queue the workers take at each moment of a discovery;
* `Builder.visitServed`, `RootContext.runPassServed` : a builder in one pass, and a pass, with the
  turns of the workers in between;
* `RootContext.discoverServed` : all passes.

## Design notes

What an eager policy queues can be taken while builders are still going on.  Here a unit is run
between two statements, before a pass begins, or behind it.  Turns may depend on all that has
happened so far and on what is still to be done, so every way in which workers can be faster or
slower is one of them; a discovery without workers is the one in which they never come.
-/
import TestTree.Discovery.Passes

namespace TestTree

/-- How many entries of the queue the workers take at each moment of a discovery. -/
structure Discovery.Turns where
  /-- Before a pass begins. -/
  before : Search → World → Nat
  /-- Before a builder goes on with what is left of it, and behind its last statement. -/
  during : Builder → Pass → Nat
  /-- Before what a pass has made is released or closed. -/
  behind : PassEnd → Nat

/-- The workers never come. -/
def Discovery.Turns.idle : Discovery.Turns :=
  ⟨fun _ _ => 0, fun _ _ => 0, fun _ => 0⟩

/-- The workers take at most `n` entries of the queue. -/
def Pass.served (n : Nat) (p : Pass) : Pass :=
  { p with world := World.serve n p.world }

/-- Run a builder in one pass, where the workers take their turns before every statement. -/
def Builder.visitServed (turns : Builder → Pass → Nat) (s : PassScope) (b : Builder) (p : Pass) :
    Ran BuildError Pass :=
  let p := p.served (turns b p)
  match b with
  | done => ⟨.finished, p⟩
  | basic b next => (p.perform s.scope b).andThen (next.visitServed turns s)
  | branch c yes no next =>
    (if p.world.book.holds s.scope c then yes.visitServed turns s p
      else no.visitServed turns s p).andThen (next.visitServed turns s)
  | autoClose r close next =>
    next.visitServed turns s (p.withCloset (p.closet.autoClose r ⟨close, s.scope⟩))
  | deferClose close next =>
    next.visitServed turns s (p.withCloset (p.closet.deferClose ⟨close, s.scope⟩))
  | test name site body swallow next =>
    ((p.declareTest s name site body).swallowing swallow).andThen (next.visitServed turns s)
  | context name site inner swallow next =>
    let declared :=
      match p.enter? s name site with
      | .inl outside => outside
      | .inr inside =>
        Pass.leave (p.parentVisit name) name site inside.shelf.mark
          (inner.visitServed turns s inside)
    (declared.swallowing swallow).andThen (next.visitServed turns s)
  | pending name site swallow next =>
    ((p.declarePending name site).swallowing swallow).andThen (next.visitServed turns s)
  | afterSuite callback next => next.visitServed turns s (p.declareAfterSuite s callback)
  | logCurrent next =>
    let line := "current " ++ p.visit.context.display
    next.visitServed turns s
      { p with world := { p.world with book := p.world.book.say s.scope.root line } }

namespace RootContext

/-- One pass over the builder of a root, with the turns of the workers. -/
def runPassServed (turns : Discovery.Turns) (r : RootContext) (search : Search) (w : World) :
    PassEnd :=
  let w := World.serve (turns.before search w) w
  let e := PassEnd.of w.shelves.length
    (r.builder.visitServed turns.during (r.openedScope w) (r.opened search w))
  { e with world := World.serve (turns.behind e) e.world }

/-- At most `fuel` more passes with the turns of the workers, behind `passes` of them. -/
def discoverFromServed (turns : Discovery.Turns) (r : RootContext) :
    (fuel : Nat) → (passes : Nat) → Search → World →
    Except Payload (Except StructuralError Discovery) × World
  | 0, passes, search, w => r.finish passes search w
  | fuel + 1, passes, search, w =>
    let e := r.runPassServed turns search w
    match r.conclude? (passes + 1) e with
    | some ended => ended
    | none => r.discoverFromServed turns fuel (passes + 1) (r.handOn e) (r.behind e)

/-- Discover every context and test of a root, while the workers take their turns. -/
def discoverServed (turns : Discovery.Turns) (r : RootContext) (w : World) :
    Except Payload (Except StructuralError Discovery) × World :=
  r.discoverFromServed turns (r.builder.declarations + 1) 0 {} w

end RootContext

end TestTree
