/-
Callbacks: scripts that only use the statements common to all.  Close callbacks and after-suite
callbacks are such scripts, and so are units made by hand.

* `Callback` : a script, one constructor for each statement with the rest behind it;
* `Callback.run` : run it in a scope.
-/
import TestTree.Journal.Notebook

namespace TestTree

/-- A script of basic statements. -/
inductive Callback where
  | done
  | basic (b : Basic) (next : Callback)
  | branch (c : Condition) (yes no next : Callback)
  deriving Inhabited

namespace Callback

/-- Run a callback; `resource` is the text of the resource that it closes, if it closes one. -/
def run (s : Scope) (resource : Option String) : Callback → Notebook → Ran Thrown Notebook
  | done, n => ⟨.finished, n⟩
  | basic b next, n => (n.perform s resource b).andThen (next.run s resource)
  | branch c yes no next, n =>
    (if n.holds s c then yes.run s resource n else no.run s resource n).andThen
      (next.run s resource)

end Callback

/-- A callback together with the scope it was made in. -/
structure Closure where
  script : Callback
  scope : Scope
  deriving Inhabited

end TestTree
