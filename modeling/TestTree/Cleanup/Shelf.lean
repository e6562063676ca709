/-
The shelf of close callbacks that wait to be run.

* `Shelf` : registered callbacks, newest first;
* `Shelf.since` : the callbacks registered after a mark, and what stays;
* `Closet` : a shelf next to a notebook; registering is an event and gives a serial number;
* `sweep` : run callbacks one after another and collect their errors, whatever they do;
* `Notebook.sweep` : the sweep of callbacks made in builders and bodies, which cannot reach the shelf.

## Design notes

A mark is the number of callbacks that are on the shelf.  Callbacks are closed newest first, so
what is closed is always the front of the list.
-/
import TestTree.Cleanup.Resource
import TestTree.Fault.Failure
import TestTree.Script.Callback

namespace TestTree

/-- A registered callback: its number among all registrations of the run, the kind and the text of
its resource, and what to run. -/
structure Registration (κ : Type) where
  serial : Nat
  label : String
  resource : Option String
  close : κ
  deriving Inhabited

/-- Registered callbacks, newest first. -/
abbrev Shelf (κ : Type) := List (Registration κ)

namespace Shelf

variable {κ : Type}

/-- Put one more callback on the shelf. -/
def push (s : Shelf κ) (r : Registration κ) : Shelf κ :=
  r :: s

/-- The current position. -/
def mark (s : Shelf κ) : Nat :=
  s.length

/-- The callbacks that were registered after `mark`, newest first. -/
def since (s : Shelf κ) (mark : Nat) : List (Registration κ) :=
  s.take (s.length - mark)

/-- The callbacks up to `mark`, which stay. -/
def upTo (s : Shelf κ) (mark : Nat) : Shelf κ :=
  s.drop (s.length - mark)

theorem since_append_upTo (s : Shelf κ) (mark : Nat) : s.since mark ++ s.upTo mark = s :=
  List.take_append_drop ..

/-- The description of the shelf as a value, in the order of registration. -/
def describe (s : Shelf κ) : String :=
  Text.record "ResourceRegistry"
    [("resources", Text.items (s.reverse.map fun r => Text.quoted r.label))]

end Shelf

/-- A shelf next to the notebook of the run that it belongs to. -/
structure Closet (κ : Type) where
  shelf : Shelf κ
  book : Notebook
  deriving Inhabited

namespace Closet

variable {κ : Type}

/-- Register a callback. -/
def register (c : Closet κ) (label : String) (resource : Option String) (close : κ) : Closet κ :=
  let serial := c.book.serials
  { shelf := c.shelf.push ⟨serial, label, resource, close⟩
    book := { c.book.add (.registered serial) with serials := serial + 1 } }

/-- Register a callback for a resource. -/
def autoClose (c : Closet κ) (r : Resource) (close : κ) : Closet κ :=
  c.register r.label (some r.text) close

/-- Register a callback on its own. -/
def deferClose (c : Closet κ) (close : κ) : Closet κ :=
  c.register "deferred" none close

/-- Perform a basic statement of a script. -/
def perform (c : Closet κ) (s : Scope) (resource : Option String) (b : Basic) :
    Ran Thrown (Closet κ) :=
  (c.book.perform s resource b).mapState fun book => { c with book }

end Closet

/-- The teardown error of a callback that ended so, if any. -/
def teardownError? (label : String) : Ending Cause → Option TeardownError
  | .finished => none
  | .failed c => some ⟨label, c⟩
  | .panicked p => some ⟨label, p.toCause⟩

/-- Run callbacks one after another.  The errors come in the order of the run. -/
def sweep {κ σ : Type} (run : Registration κ → σ → Ran Cause σ) :
    List (Registration κ) → σ → List TeardownError × σ
  | [], s => ([], s)
  | r :: rest, s =>
    let ran := run r s
    let (errors, s) := sweep run rest ran.state
    ((teardownError? r.label ran.ending).toList ++ errors, s)

/-- Run a close callback that was made in a scope. -/
def Registration.run (r : Registration Closure) (n : Notebook) : Ran Cause Notebook :=
  (r.close.script.run r.close.scope r.resource (n.add (.closed r.serial))).mapError Thrown.toCause

/-- Run close callbacks one after another. -/
def Notebook.sweep (n : Notebook) (rs : List (Registration Closure)) :
    List TeardownError × Notebook :=
  TestTree.sweep Registration.run rs n

end TestTree
