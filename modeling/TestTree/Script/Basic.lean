/-
What every script can do, and how a script can end.

* `Ending` : a script finishes, returns an error, or panics;
* `Ran` : an ending with the state that is left behind; `Ran.andThen` runs the rest of a script only
  behind a part that finished;
* `Store` : the variables of scripts, each integer and 0 until it is set;
* `Basic.perform` : the statements that are common to all scripts.

## Design notes

A variable whose name starts with `$` belongs to one invocation of a root's builder and to the
bodies and callbacks made in it; any other belongs to its root.  `Scope` names both.
-/
import TestTree.Fault.Cause

namespace TestTree

/-- How a script ended. -/
inductive Ending (ε : Type) where
  | finished
  | failed (error : ε)
  | panicked (payload : Payload)
  deriving DecidableEq, Inhabited

/-- How a script ended, and the state that it left behind. -/
structure Ran (ε σ : Type) where
  ending : Ending ε
  state : σ
  deriving Inhabited

namespace Ran

variable {ε δ σ τ : Type}

/-- Go on in the state that is reached, if what came before finished. -/
def andThen (r : Ran ε σ) (next : σ → Ran ε σ) : Ran ε σ :=
  match r.ending with
  | .finished => next r.state
  | .failed e => ⟨.failed e, r.state⟩
  | .panicked p => ⟨.panicked p, r.state⟩

/-- The same ending with another kind of error. -/
def mapError (f : ε → δ) (r : Ran ε σ) : Ran δ σ :=
  match r.ending with
  | .finished => ⟨.finished, r.state⟩
  | .failed e => ⟨.failed (f e), r.state⟩
  | .panicked p => ⟨.panicked p, r.state⟩

/-- The same ending in another view of the state. -/
def mapState (f : σ → τ) (r : Ran ε σ) : Ran ε τ :=
  ⟨r.ending, f r.state⟩

/-- An error is dropped if `swallow` says so; a panic never is. -/
def swallowing (swallow : Bool) (r : Ran ε σ) : Ran ε σ :=
  match r.ending with
  | .failed e => if swallow then ⟨.finished, r.state⟩ else ⟨.failed e, r.state⟩
  | _ => r

@[simp] theorem andThen_finished (s : σ) (next : σ → Ran ε σ) :
    andThen ⟨.finished, s⟩ next = next s := rfl

@[simp] theorem andThen_failed (e : ε) (s : σ) (next : σ → Ran ε σ) :
    andThen ⟨.failed e, s⟩ next = ⟨.failed e, s⟩ := rfl

@[simp] theorem andThen_panicked (p : Payload) (s : σ) (next : σ → Ran ε σ) :
    andThen ⟨.panicked p, s⟩ next = ⟨.panicked p, s⟩ := rfl

end Ran

/-- Whose variables a script sees: those of its root and those of its invocation of the builder. -/
structure Scope where
  root : Nat
  invocation : Nat
  deriving DecidableEq, Inhabited

/-- Who owns a variable. -/
inductive Realm where
  | root (index : Nat)
  | invocation (number : Nat)
  deriving DecidableEq, Inhabited

/-- The owner of the variable that a name means in a scope. -/
def Scope.realm (s : Scope) (name : String) : Realm :=
  if name.toList.head? = some '$' then .invocation s.invocation else .root s.root

/-- The values of the variables that have been set. -/
abbrev Store := List ((Realm × String) × Int)

namespace Store

/-- The value of a variable. -/
def read (st : Store) (r : Realm) (name : String) : Int :=
  (List.lookup (r, name) st).getD 0

/-- Set a variable. -/
def write (st : Store) (r : Realm) (name : String) (value : Int) : Store :=
  ((r, name), value) :: st.filter fun e => e.1 != (r, name)

end Store

/-- The value of the variable that a name means in a scope. -/
def Scope.read (s : Scope) (st : Store) (name : String) : Int :=
  st.read (s.realm name) name

/-- How a variable is compared with a number. -/
inductive Comparison where
  | less
  | atLeast
  | equal
  deriving DecidableEq, Inhabited

/-- A test of one variable. -/
structure Condition where
  name : String
  comparison : Comparison
  value : Int
  deriving DecidableEq, Inhabited

/-- Whether a condition holds in a store. -/
def Condition.holds (c : Condition) (st : Store) (s : Scope) : Bool :=
  let value := s.read st c.name
  match c.comparison with
  | .less => value < c.value
  | .atLeast => c.value ≤ value
  | .equal => value == c.value

/-- The statements that every script can use. -/
inductive Basic where
  | log (text : String)
  | logVar (name : String)
  | incr (name : String)
  /-- Log the text of the resource that is being closed. -/
  | logResource
  | fail (error : Thrown)
  | panic (payload : Payload)
  deriving Inhabited

/-- What a basic statement did: how it ended, the variables after it, and the line it logged. -/
structure Basic.Effect where
  ending : Ending Thrown
  store : Store
  line : Option String

/-- Perform one basic statement; `resource` is the resource that is being closed. -/
def Basic.perform (s : Scope) (resource : Option String) (st : Store) : Basic → Basic.Effect
  | log text => ⟨.finished, st, some ("log " ++ text)⟩
  | logVar name => ⟨.finished, st, some s!"var {name}={s.read st name}"⟩
  | incr name => ⟨.finished, st.write (s.realm name) name (s.read st name + 1), none⟩
  | logResource => ⟨.finished, st, some ("resource " ++ resource.getD "-")⟩
  | fail e => ⟨.failed e, st, none⟩
  | panic p => ⟨.panicked p, st, none⟩

end TestTree
