/-
The notebook of a run: the variables of scripts and the events so far.

* `Notebook.add`, `say`, `trace` : write an event down;
* `Notebook.notify` : tell a listener, which may panic;
* `Notebook.perform` : a basic statement of a script.
-/
import TestTree.Journal.Event
import TestTree.Script.Basic

namespace TestTree

/-- Variables and events of a run.  Events are kept newest first. -/
structure Notebook where
  store : Store := []
  events : List Event := []
  /-- The number of builder invocations so far. -/
  invocations : Nat := 0
  /-- The number of close callbacks registered so far. -/
  serials : Nat := 0
  deriving Inhabited

namespace Notebook

/-- Write an event down. -/
def add (n : Notebook) (e : Event) : Notebook :=
  { n with events := e :: n.events }

/-- Write a line of a script down. -/
def say (n : Notebook) (root : Nat) (line : String) : Notebook :=
  n.add (.said root line)

/-- Write a diagnostic record down. -/
def trace (n : Notebook) (level : Level) (message : String)
    (fields : List (String × String)) : Notebook :=
  n.add (.traced ⟨level, message, fields⟩)

/-- Tell a listener; the notice is written down even if being told makes the listener panic. -/
def notify (n : Notebook) (l : Listener) (notice : Notice) : Option Payload × Notebook :=
  (l.panic? notice, n.add (.notified notice))

/-- Perform a basic statement of a script. -/
def perform (n : Notebook) (s : Scope) (resource : Option String) (b : Basic) :
    Ran Thrown Notebook :=
  let e := b.perform s resource n.store
  let n := { n with store := e.store }
  ⟨e.ending,
    match e.line with
    | some line => n.say s.root line
    | none => n⟩

/-- Whether a condition holds for the scripts of a scope. -/
def holds (n : Notebook) (s : Scope) (c : Condition) : Bool :=
  c.holds n.store s

/-- Set a variable of a root. -/
def setShared (n : Notebook) (root : Nat) (name : String) (value : Int) : Notebook :=
  { n with store := n.store.write (.root root) name value }

end Notebook

end TestTree
