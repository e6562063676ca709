/-
Sessions: one root that is discovered and whose tests are then used, step by step.

* `Session` : the world, the root, and the latest result;
* `Session.discover`, `Session.drop` : a result is let go of before there is another one.
-/
import TestTree.Discovery.Passes

namespace TestTree

/-- A root in its world, with the latest result of discovery. -/
structure Session where
  world : World
  root : RootContext
  result : Option Discovery := none
  deriving Inhabited

namespace Session

/-- Let go of the latest result; says whether there was one. -/
def drop (s : Session) : Bool × Session :=
  match s.result with
  | none => (false, s)
  | some d => (true, { s with world := s.world.dropAll d.tests, result := none })

/-- Discover the root again.  The result is the new one, or an error that leaves none. -/
def discover (s : Session) : Except Payload (Except StructuralError Discovery) × Session :=
  let s := s.drop.2
  match s.root.discover s.world with
  | (.ok (.ok d), world) => (.ok (.ok d), { s with world, result := some d })
  | (other, world) => (other, { s with world })

end Session

end TestTree
