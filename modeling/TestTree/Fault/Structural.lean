/-
Structural errors: mistakes of whoever wrote the tree or its settings.  They end discovery and are
handed to the caller, while ordinary failures become results of tests.

* `StructuralError` with `message`, `chain` and `describe`.
-/
import TestTree.Text.Quoted

namespace TestTree

/-- What is wrong with a tree, a suite or its settings. -/
inductive StructuralError where
  /-- Two declarations of one context share a name. -/
  | duplicateName (name context : String)
  /-- A suite without any root. -/
  | emptySuite
  /-- Settings that cannot be used. -/
  | invalidConfig (text : String)
  /-- A settings file that cannot be read or written. -/
  | io (text : String)
  deriving DecidableEq, Inhabited

namespace StructuralError

/-- The error as one line. -/
def message : StructuralError → String
  | duplicateName name context =>
    "duplicate name '" ++ name ++ "' in context '" ++ context ++ "'"
  | emptySuite => "a suite needs at least one root context"
  | invalidConfig text => "Invalid configuration: " ++ text
  | io text => "I/O error: " ++ text

/-- The message and the messages of what lies behind it. -/
def chain : StructuralError → List String
  | io text => [message (io text), text]
  | e => [e.message]

/-- The description of the error as a value. -/
def describe : StructuralError → String
  | duplicateName name context =>
    Text.record "DuplicateName" [("name", Text.quoted name), ("context", Text.quoted context)]
  | emptySuite => "EmptySuite"
  | invalidConfig text => Text.wrapped "InvalidConfig" (Text.quoted text)
  | io text =>
    Text.wrapped "Io"
      (Text.record "Custom" [("kind", "NotFound"), ("error", Text.quoted text)])

end StructuralError

end TestTree
