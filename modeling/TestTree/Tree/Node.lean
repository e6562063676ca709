/-
Nodes: contexts as they are kept and shared.

* `Node` : a context at an address, with its depth noted down when it was made;
* `Node.same`, `Node.contains`, `Node.ancestry`, `Node.path` : the questions about contexts, asked
  of nodes;
* `Hasher`, `Node.feed` : what a node feeds to a hasher;
* `Node.context` : the context that is kept;
* `Alive` : the nodes that are kept at one time.

## Design notes

Whoever holds a context holds the address of its node, so that many can share one.  A node at the
same address is the same at once, and nodes of different depths are different at once; only
otherwise are names and parents compared.  An address is free again when its node is dropped, which
happens no earlier than to all nodes below it.
-/
import TestTree.Tree.Context

namespace TestTree

/-- A context at an address. -/
inductive Node where
  | root (address : Nat) (name : String) (location : Location)
  | child (address : Nat) (parent : Node) (name : String) (location : Location) (depth : Nat)
  deriving Inhabited

/-- A hasher, as what it does with a text and with the mark that says whether more follows. -/
structure Hasher (σ : Type) where
  text : String → σ → σ
  more : Bool → σ → σ

namespace Node

/-- Where the node is kept. -/
def address : Node → Nat
  | root a _ _ => a
  | child a _ _ _ _ => a

/-- The name of the context. -/
def name : Node → String
  | root _ n _ => n
  | child _ _ n _ _ => n

/-- The node of the enclosing context. -/
def parent? : Node → Option Node
  | root .. => none
  | child _ p _ _ _ => some p

/-- The depth that was noted down. -/
def depth : Node → Nat
  | root .. => 0
  | child _ _ _ _ d => d

/-- The context that is kept. -/
def context : Node → Context
  | root _ n l => .root n l
  | child _ p n l _ => .child p.context n l

/-- The same address, or the same depth and name with the same parents. -/
def same : Node → Node → Bool
  | root a n l, y =>
    a == y.address || ((root a n l).depth == y.depth && n == y.name && y.parent?.isNone)
  | child a p n _ d, y => a == y.address || (d == y.depth && n == y.name && y.parent?.any p.same)

/-- The nodes on the way up, the node itself first. -/
def climb : Node → List Node
  | root a n l => [root a n l]
  | child a p n l d => child a p n l d :: p.climb

/-- The nodes from the root down to and including the node. -/
def ancestry (x : Node) : List Node :=
  x.climb.reverse

/-- The names from the root down to and including the node. -/
def path (x : Node) : NamePath :=
  (x.climb.map name).reverse

/-- `x.contains y`: the way up from `y` meets `x` before it is above it. -/
def contains (x : Node) : Node → Bool
  | root a n l => if (root a n l).depth < x.depth then false else (root a n l).same x
  | child a p n l d => if d < x.depth then false else (child a p n l d).same x || x.contains p

/-- The hasher gets the name of the node, and then what its parent feeds to it if there is one. -/
def feed {σ : Type} (h : Hasher σ) : Node → σ → σ
  | root _ n _, s => h.more false (h.text n s)
  | child _ p n _ _, s => p.feed h (h.more true (h.text n s))

end Node

/-- Nodes that are kept at one time.  A new node is kept at an address that is free, and a child
below a node that is kept; nodes may be dropped, but no parent of a node that stays. -/
inductive Alive : List Node → Prop
  | none : Alive []
  | root {xs : List Node} {a : Nat} (h : Alive xs) (ha : ∀ x ∈ xs, x.address ≠ a) (name : String)
      (location : Location) : Alive (.root a name location :: xs)
  | child {xs : List Node} {a : Nat} {p : Node} (h : Alive xs) (hp : p ∈ xs)
      (ha : ∀ x ∈ xs, x.address ≠ a) (name : String) (location : Location) :
      Alive (.child a p name location (p.depth + 1) :: xs)
  | drop {xs ys : List Node} (h : Alive xs) (hsub : ys ⊆ xs)
      (hp : ∀ x ∈ ys, ∀ p, x.parent? = some p → p ∈ ys) : Alive ys

/-- What a context feeds to a hasher, wherever it is kept. -/
def Context.feed {σ : Type} (h : Hasher σ) : Context → σ → σ
  | root n _, s => h.more false (h.text n s)
  | child p n _, s => p.feed h (h.more true (h.text n s))

end TestTree
