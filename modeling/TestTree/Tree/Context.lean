/-
Contexts: the named nodes of a test tree.

* `Context` : a root, or a named child of another context;
* `Context.path` : the names from the root down, which are what a context is known by;
* `Context.same` : two contexts are the same if their names and the names above them agree;
* `Context.contains` : a context is inside itself and inside each of its ancestors;
* `Place` : a name declared directly in a context.

## Design notes

Locations are carried along for reports; they never take part in comparisons.  Sameness walks up
both chains together, and containment walks up one chain until it is higher than the other context;
both agree with the lists of names, which is what makes `path` a key for sets of contexts.
-/
import TestTree.Tree.Location

namespace TestTree

/-- A named node of a test tree. -/
inductive Context where
  | root (name : String) (location : Location)
  | child (parent : Context) (name : String) (location : Location)
  deriving Inhabited

/-- Names from a root down to a declaration. -/
abbrev NamePath := List String

/-- Whether a path is among others is decided by comparing names. -/
instance : LawfulBEq NamePath :=
  inferInstance

namespace Context

/-- The name of the node itself. -/
def name : Context → String
  | root n _ => n
  | child _ n _ => n

/-- Where the context was declared. -/
def location : Context → Location
  | root _ l => l
  | child _ _ l => l

/-- The enclosing context; a root has none. -/
def parent? : Context → Option Context
  | root .. => none
  | child p _ _ => some p

/-- The number of ancestors. -/
def depth : Context → Nat
  | root .. => 0
  | child p _ _ => p.depth + 1

/-- A context without an enclosing one. -/
def isRoot : Context → Bool
  | root .. => true
  | child .. => false

/-- The chain from the root down to and including the context. -/
def ancestry : Context → List Context
  | root n l => [root n l]
  | child p n l => p.ancestry ++ [child p n l]

/-- The names from the root down to and including the context. -/
def path : Context → NamePath
  | root n _ => [n]
  | child p n _ => p.path ++ [n]

theorem path_ne_nil (c : Context) : c.path ≠ [] := by
  cases c <;> simp [path]

/-- The path as text: `root > outer > inner`. -/
def display (c : Context) : String :=
  " > ".intercalate c.path

/-- Names agree, and so do the contexts around them; locations do not matter. -/
def same : Context → Context → Bool
  | root n _, root m _ => n == m
  | child p n _, child q m _ => n == m && p.same q
  | _, _ => false

instance : BEq Context := ⟨same⟩

/-- `a.contains b`: `a` is `b` or one of its ancestors.  The walk up from `b` stops as soon as it
is above `a`, where no context can be the same as `a`. -/
def contains (a : Context) : Context → Bool
  | root n l => if 0 < a.depth then false else root n l == a
  | child p n l =>
    if p.depth + 1 < a.depth then false
    else child p n l == a || a.contains p

/-- The description of a context as a value. -/
def describe (c : Context) : String :=
  Text.record "Context" [("path", Text.quoted c.display), ("location", c.location.describe)]

end Context

/-- A name declared directly in a context: a test, a pending test or a sub-context. -/
structure Place where
  container : Context
  name : String
  deriving Inhabited

namespace Place

/-- The names from the root down to the declared name. -/
def path (p : Place) : NamePath :=
  p.container.path ++ [p.name]

/-- The same name in the same context. -/
def same (p q : Place) : Bool :=
  p.container == q.container && p.name == q.name

instance : BEq Place := ⟨same⟩

/-- The place as text: `root > outer > name`. -/
def display (p : Place) : String :=
  p.container.display ++ " > " ++ p.name

end Place

end TestTree
