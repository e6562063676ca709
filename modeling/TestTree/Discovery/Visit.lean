/-
Visiting contexts: the builder of a context is run once in a pass.

* `Pass.enter?` : a sub-context is entered if it is new and no test was met before it;
* `Pass.leave` : what becomes of a sub-context when its builder has ended;
* `Builder.visit` : a builder in one pass.

## Design notes

A sub-context that fails becomes a failed test of its parent.  What it registered is closed then,
unless a direct test was met inside it, which owns it.  Structural errors go through to the caller
and leave the sub-context open.
-/
import TestTree.Discovery.Search

namespace TestTree

namespace Pass

/-- A sub-context is declared.  Either nothing is entered, or the pass goes on inside it. -/
def enter? (s : PassScope) (name : String) (site : Location) (p : Pass) :
    Ran BuildError Pass ⊕ Pass :=
  let claimed := p.claim name
  match claimed.ending with
  | .finished =>
    let p := claimed.state
    if p.isProcessed name then .inl ⟨.finished, p⟩
    else if p.visit.ran then .inl ⟨.finished, { p with visit := { p.visit with left := true } }⟩
    else
      let (context, search) := p.search.intern (p.place name) site
      let world := { p.world with book := p.world.book.add (.entered s.root.index context.path) }
      .inr { p with visit := search.visit context, search, world }
  | _ => .inl claimed

/-- The visit that a sub-context was entered from, its name taken. -/
def parentVisit (p : Pass) (name : String) : Visit :=
  { p.visit with names := name :: p.visit.names }

/-- A sub-context failed: it is closed, and becomes a failed test of its parent. -/
def leaveFailed (name : String) (site : Location) (mark : Nat) (failure : Failure) (p : Pass) :
    Ran BuildError Pass :=
  let (teardown, p) : List TeardownError × Pass :=
    if p.search.direct.isSome then ([], p)
    else
      let (errors, book) := p.world.book.sweep (p.shelf.since mark)
      (errors, p.withCloset ⟨p.shelf.upTo mark, book⟩)
  let outcome : Outcome :=
    ⟨⟨p.visit.context, name, site⟩, .failed (failure.withTeardown teardown)⟩
  (p.complete outcome).andThen fun p =>
    let p := p.process name
    ⟨.finished, { p with visit := { p.visit with ran := true } }⟩

/-- The builder of a sub-context finished: the context is found, unless something was left in it. -/
def leaveFinished (name : String) (inner : Visit) (p : Pass) : Pass :=
  let p := { p with
    search := { p.search with investigated := p.search.investigated ++ [inner.context.path] }
    visit := { p.visit with ran := p.visit.ran || inner.ran, left := p.visit.left || inner.left } }
  if inner.left then p
  else { p with search := { p.search with found := p.search.found ++ [inner.context] } }.process name

/-- The builder of a sub-context has ended, and the visit goes on in its parent. -/
def leave (parent : Visit) (name : String) (site : Location) (mark : Nat)
    (r : Ran BuildError Pass) : Ran BuildError Pass :=
  let p := { r.state with visit := parent }
  match r.ending with
  | .finished => ⟨.finished, p.leaveFinished name r.state.visit⟩
  | .failed (.structural e) => ⟨.failed (.structural e), p⟩
  | .failed (.failed c) => p.leaveFailed name site mark (.ofCause .contextBuild c)
  | .panicked panic => p.leaveFailed name site mark (.ofPanic .contextBuild panic)

end Pass

/-- Run a builder in one pass. -/
def Builder.visit (s : PassScope) : Builder → Pass → Ran BuildError Pass
  | done, p => ⟨.finished, p⟩
  | basic b next, p => (p.perform s.scope b).andThen (next.visit s)
  | branch c yes no next, p =>
    (if p.world.book.holds s.scope c then yes.visit s p else no.visit s p).andThen (next.visit s)
  | autoClose r close next, p =>
    next.visit s (p.withCloset (p.closet.autoClose r ⟨close, s.scope⟩))
  | deferClose close next, p =>
    next.visit s (p.withCloset (p.closet.deferClose ⟨close, s.scope⟩))
  | test name site body swallow next, p =>
    ((p.declareTest s name site body).swallowing swallow).andThen (next.visit s)
  | context name site inner swallow next, p =>
    let declared :=
      match p.enter? s name site with
      | .inl outside => outside
      | .inr inside =>
        Pass.leave (p.parentVisit name) name site inside.shelf.mark (inner.visit s inside)
    (declared.swallowing swallow).andThen (next.visit s)
  | pending name site swallow next, p =>
    ((p.declarePending name site).swallowing swallow).andThen (next.visit s)
  | afterSuite callback next, p => next.visit s (p.declareAfterSuite s callback)
  | logCurrent next, p =>
    let line := "current " ++ p.visit.context.display
    next.visit s
      { p with world := { p.world with book := p.world.book.say s.scope.root line } }

end TestTree
