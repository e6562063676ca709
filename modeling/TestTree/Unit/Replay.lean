/-
Replaying one test alone.

* `Builder.replay` : run a builder, but enter only the contexts on the way to the target and run
  only the body of the target;
* `replay` : the result of the target, with everything registered on the way closed behind it.

## Design notes

The result before cleanup is decided once, by the first of two events: the body of the target ran,
or a context on the way failed.  `Decision` records it; what the builders do afterwards changes
nothing.
-/
import TestTree.Unit.Body

namespace TestTree

/-- What is known about the target of a replay. -/
inductive Decision where
  | undecided
  | passed
  | failed (failure : Failure)
  deriving Inhabited

namespace Decision

/-- Nothing is known yet. -/
def isOpen : Decision → Bool
  | undecided => true
  | _ => false

/-- What a body decides. -/
def ofBody : Option Failure → Decision
  | none => passed
  | some f => failed f

end Decision

/-- A replay on its way: what is registered, and what is known about the target. -/
structure Replay where
  closet : Closet Closure
  decision : Decision
  deriving Inhabited

namespace Replay

/-- The failure of a context's builder that ended so, if any. -/
def contextFailure? : Ending BuildError → Option Failure
  | .finished => none
  | .failed e => some (.ofCause .contextBuild e.toCause)
  | .panicked p => some (.ofPanic .contextBuild p)

/-- A context on the way was built: a failure decides, unless something else did before. -/
def leave (r : Ran BuildError Replay) : Replay :=
  match contextFailure? r.ending with
  | some f => if r.state.decision.isOpen then { r.state with decision := .failed f } else r.state
  | none => r.state

end Replay

/-- Run the builder of the context `depth` levels below the root.  Declarations never fail here. -/
def Builder.replay (t : TestScope) : Builder → (depth : Nat) → Replay → Ran BuildError Replay
  | done, _, r => ⟨.finished, r⟩
  | basic b next, depth, r =>
    (((r.closet.perform t.scope none b).mapError Thrown.toBuildError).mapState
      fun closet => { r with closet }).andThen (next.replay t depth)
  | branch c yes no next, depth, r =>
    (if r.closet.book.holds t.scope c then yes.replay t depth r
      else no.replay t depth r).andThen (next.replay t depth)
  | autoClose res close next, depth, r =>
    next.replay t depth { r with closet := r.closet.autoClose res ⟨close, t.scope⟩ }
  | deferClose close next, depth, r =>
    next.replay t depth { r with closet := r.closet.deferClose ⟨close, t.scope⟩ }
  | test name _ body _ next, depth, r =>
    if r.decision.isOpen && depth + 1 == t.test.container.path.length && name == t.test.name then
      let (failure, closet) := body.execute t r.closet
      next.replay t depth ⟨closet, .ofBody failure⟩
    else next.replay t depth r
  | context name _ inner _ next, depth, r =>
    if r.decision.isOpen && t.test.container.path[depth + 1]? == some name then
      let book := r.closet.book.add
        (.entered t.scope.root (t.test.container.path.take (depth + 2)))
      next.replay t depth
        (Replay.leave (inner.replay t (depth + 1) { r with closet := { r.closet with book } }))
    else next.replay t depth r
  | pending _ _ _ next, depth, r => next.replay t depth r
  | afterSuite _ next, depth, r => next.replay t depth r
  | logCurrent next, depth, r =>
    let line := "current " ++ " > ".intercalate (t.test.container.path.take (depth + 1))
    next.replay t depth
      { r with closet := { r.closet with book := r.closet.book.say t.scope.root line } }

/-- Nothing in the builder declared the target again. -/
def mismatch (test : Description) : Failure :=
  .ofCause .replayMismatch
    (.text ("test '" ++ test.name ++ "' was not declared again in '" ++ test.container.display
      ++ "' during replay"))

/-- What a replay decides in the end, from what it met on the way and how the root's builder
ended. -/
def Replay.verdict (test : Description) (r : Ran BuildError Replay) : Option Failure :=
  match r.state.decision with
  | .passed => none
  | .failed f => some f
  | .undecided => some ((Replay.contextFailure? r.ending).getD (mismatch test))

/-- Start one more invocation of a root's builder. -/
def Notebook.invoke (n : Notebook) (root : RootContext) (path : NamePath) : Scope × Notebook :=
  (⟨root.index, n.invocations⟩,
    { n.add (.entered root.index path) with invocations := n.invocations + 1 })

/-- Replay `test` in the tree of `root`. -/
def replay (l : Listener) (root : RootContext) (test : Description) (n : Notebook) :
    TestResult × Notebook :=
  let n := n.trace .debug "replaying test" [("test", test.display)]
  let (scope, n) := n.invoke root (test.container.path.take 1)
  let r := root.builder.replay ⟨test, l, scope⟩ 0 ⟨⟨[], n⟩, .undecided⟩
  r.state.closet.conclude (Replay.verdict test r)

end TestTree
