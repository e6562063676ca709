/-
Settings of a suite.

* `Settings` : start policy, size of the worker pool, names of the workers;
* `Settings.validate` : what the types leave open, checked in a fixed order.
-/
import TestTree.Fault.Structural
import TestTree.Text.Blank
import TestTree.Work.StartPolicy

namespace TestTree

/-- The settings of a suite; without a number of workers the machine decides. -/
structure Settings where
  lazy : Bool := false
  workers : Option Nat := none
  threadPrefix : String := "canopy-worker"
  deriving DecidableEq, Inhabited

namespace Settings

/-- The start policy that the settings ask for. -/
def policy (s : Settings) : StartPolicy :=
  if s.lazy then .lazy else .eager

/-- The first fault of the settings: a pool without workers, then a blank thread prefix. -/
def fault? (s : Settings) : Option StructuralError :=
  if s.workers = some 0 then
    some (.invalidConfig "worker_threads must be at least 1")
  else if Text.isBlank s.threadPrefix then
    some (.invalidConfig "thread_name_prefix must not be empty")
  else none

/-- Settings without a fault. -/
def validate (s : Settings) : Except StructuralError Settings :=
  match s.fault? with
  | some e => .error e
  | none => .ok s

/-- The description of the settings as a value. -/
def describe (s : Settings) : String :=
  Text.record "SuiteConfig"
    [("lazy", Text.flag s.lazy),
     ("worker_threads",
      match s.workers with
      | none => "None"
      | some n => Text.wrapped "Some" (toString n)),
     ("thread_name_prefix", Text.quoted s.threadPrefix)]

end Settings

end TestTree
