/-
Close callbacks that use the shelf they come from.

* `Cleanup` : scripts that register more callbacks, take marks, and start sweeps of their own;
* `Closet.closeSince` : a sweep with such callbacks;
* `Closet.call` : what can be asked of a shelf from outside.

## Design notes

A sweep takes its callbacks off the shelf before it runs them, so a sweep inside a callback finds
what lies below the mark of the outer one and what was registered in between.  Each nested sweep
belongs to one statement, and each script runs at most once; the number of those statements
therefore bounds the depth of the nesting.
-/
import TestTree.Cleanup.Shelf

namespace TestTree

/-- A mark that a callback sweeps from: a number that it knows, or one that it keeps in a
variable. -/
inductive Position where
  | fixed (mark : Nat)
  | saved (name : String)
  deriving Inhabited

/-- A close callback that can use the shelf. -/
inductive Cleanup where
  | done
  | basic (b : Basic) (next : Cleanup)
  | branch (c : Condition) (yes no next : Cleanup)
  | autoClose (resource : Resource) (close : Cleanup) (next : Cleanup)
  | deferClose (close : Cleanup) (next : Cleanup)
  /-- Keep the current mark in a variable. -/
  | mark (name : String) (next : Cleanup)
  /-- Sweep what was registered after a mark and log every teardown error. -/
  | closeSince (position : Position) (next : Cleanup)
  deriving Inhabited

/-- What a sweep does to a shelf: the errors, and what it leaves behind. -/
abbrev Sweeper := Nat → Closet Cleanup → List TeardownError × Closet Cleanup

namespace Cleanup

/-- Sweep the whole shelf and log every teardown error. -/
def closeAll (next : Cleanup) : Cleanup :=
  .closeSince (.fixed 0) next

/-- The number of sweeps that a script, and the scripts it registers, can start. -/
def sweeps : Cleanup → Nat
  | done => 0
  | basic _ next => next.sweeps
  | branch _ yes no next => yes.sweeps + no.sweeps + next.sweeps
  | autoClose _ close next => close.sweeps + next.sweeps
  | deferClose close next => close.sweeps + next.sweeps
  | mark _ next => next.sweeps
  | closeSince _ next => next.sweeps + 1

end Cleanup

/-- The mark that a position means. -/
def Position.value (s : Scope) (n : Notebook) : Position → Nat
  | fixed mark => mark
  | saved name => (s.read n.store name).toNat

namespace Closet

/-- Keep the current mark in a variable. -/
def saveMark (c : Closet Cleanup) (s : Scope) (name : String) : Closet Cleanup :=
  { c with book := { c.book with
      store := c.book.store.write (s.realm name) name c.shelf.mark } }

/-- Log the errors of a sweep. -/
def sayErrors (c : Closet Cleanup) (s : Scope) (errors : List TeardownError) : Closet Cleanup :=
  { c with book := errors.foldl (fun b e => b.say s.root ("error " ++ e.display)) c.book }

end Closet

/-- Run a callback; `nested` is what a sweep inside it does. -/
def Cleanup.run (nested : Sweeper) (s : Scope) (resource : Option String) :
    Cleanup → Closet Cleanup → Ran Thrown (Closet Cleanup)
  | done, c => ⟨.finished, c⟩
  | basic b next, c => (c.perform s resource b).andThen (next.run nested s resource)
  | branch cond yes no next, c =>
    (if c.book.holds s cond then yes.run nested s resource c
      else no.run nested s resource c).andThen (next.run nested s resource)
  | autoClose r close next, c => next.run nested s resource (c.autoClose r close)
  | deferClose close next, c => next.run nested s resource (c.deferClose close)
  | mark name next, c => next.run nested s resource (c.saveMark s name)
  | closeSince position next, c =>
    let (errors, c) := nested (position.value s c.book) c
    next.run nested s resource (c.sayErrors s errors)

namespace Closet

/-- Variables of callbacks that no builder made. -/
def scope : Scope :=
  ⟨0, 0⟩

/-- Run one callback that was on the shelf; `nested` is what a sweep inside it does. -/
def runCallback (nested : Sweeper) (r : Registration Cleanup) (c : Closet Cleanup) :
    Ran Cause (Closet Cleanup) :=
  (r.close.run nested scope r.resource
    { c with book := c.book.add (.closed r.serial) }).mapError Thrown.toCause

/-- Take what was registered after `mark` off the shelf and run it, newest first; `nested` is what
a sweep inside these callbacks does. -/
def closeSinceWith (nested : Sweeper) : Sweeper := fun mark c =>
  sweep (runCallback nested) (c.shelf.since mark) { c with shelf := c.shelf.upTo mark }

/-- Close what was registered after `mark`, with at most `depth` sweeps inside each other. -/
def closeSinceWithin : (depth : Nat) → Sweeper
  | 0 => fun _ c => ([], c)
  | depth + 1 => closeSinceWith (closeSinceWithin depth)

/-- The number of sweeps that the callbacks on the shelf can start. -/
def nestings (c : Closet Cleanup) : Nat :=
  c.shelf.foldr (fun r n => r.close.sweeps + n) 0

/-- Run the callbacks registered after `mark`, newest first, and collect their errors. -/
def closeSince (c : Closet Cleanup) (mark : Nat) : List TeardownError × Closet Cleanup :=
  closeSinceWithin (c.nestings + 1) mark c

/-- What can be asked of a shelf from outside. -/
inductive Call where
  | autoClose (resource : Resource) (close : Cleanup)
  | deferClose (close : Cleanup)
  | mark
  | closeSince (mark : Nat)
  | closeAll
  deriving Inhabited

/-- The shelf behind a call. -/
def call (c : Closet Cleanup) : Call → Closet Cleanup
  | .autoClose r close => c.autoClose r close
  | .deferClose close => c.deferClose close
  | .mark => c
  | .closeSince mark => (c.closeSince mark).2
  | .closeAll => (c.closeSince 0).2

end Closet

end TestTree
