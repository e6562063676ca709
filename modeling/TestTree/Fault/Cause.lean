/-
Causes: errors with the contexts that were put around them, and how a builder's error is sorted.

* `Cause` : a root with layers of context, outermost first;
* `Cause.structural?` : a structural error is found under any number of layers;
* `BuildError.ofCause` : a builder's error is structural exactly if its cause holds a structural
  error, and then it loses its layers;
* `Thrown` : an error as a script returns it;
* `Payload` : what a panic carries.
-/
import TestTree.Fault.Structural

namespace TestTree

/-- The innermost error of a cause. -/
inductive RootCause where
  | text (message : String)
  | structural (error : StructuralError)
  /-- An input or output error that is no structural one. -/
  | io (message : String)
  deriving DecidableEq, Inhabited

/-- The messages of a root, outermost first. -/
def RootCause.chain : RootCause → List String
  | .text m => [m]
  | .structural e => e.chain
  | .io m => [m]

/-- An error with layers of context around it, outermost first. -/
structure Cause where
  layers : List String
  root : RootCause
  deriving DecidableEq, Inhabited

namespace Cause

/-- A cause that is only a message. -/
def text (message : String) : Cause :=
  ⟨[], .text message⟩

/-- A structural error as a cause. -/
def ofStructural (e : StructuralError) : Cause :=
  ⟨[], .structural e⟩

/-- Messages from the outermost layer to the root; the last one is the root itself.  Without any
message the cause says `failed`. -/
def ofMessages (messages : List String) : Cause :=
  match messages.getLast? with
  | none => text "failed"
  | some m => ⟨messages.dropLast, .text m⟩

/-- All messages, outermost first. -/
def chain (c : Cause) : List String :=
  c.layers ++ c.root.chain

/-- The outermost message. -/
def headline (c : Cause) : String :=
  c.chain.headD ""

/-- All messages in one line. -/
def oneLine (c : Cause) : String :=
  ": ".intercalate c.chain

/-- The structural error under the layers, if there is one. -/
def structural? (c : Cause) : Option StructuralError :=
  match c.root with
  | .structural e => some e
  | _ => none

end Cause

/-- How a builder went wrong: structurally, which ends discovery, or in an ordinary way, which
makes its context a failed test. -/
inductive BuildError where
  | structural (error : StructuralError)
  | failed (cause : Cause)
  deriving DecidableEq, Inhabited

namespace BuildError

/-- An error returned by a builder keeps its structural identity. -/
def ofCause (c : Cause) : BuildError :=
  match c.structural? with
  | some e => structural e
  | none => failed c

/-- Back to a plain cause, for reports. -/
def toCause : BuildError → Cause
  | structural e => .ofStructural e
  | failed c => c

/-- An error that ends discovery. -/
def isStructural : BuildError → Bool
  | structural _ => true
  | failed _ => false

/-- The error as one line. -/
def display : BuildError → String
  | structural e => e.message
  | failed c => c.oneLine

/-- The description of the error as a value. -/
def describe : BuildError → String
  | structural e => Text.wrapped "Structural" e.describe
  | failed c => Text.wrapped "Failed" c.oneLine

end BuildError

/-- How a script hands an error on: sorted by what it holds, as an ordinary failure whatever it holds,
or as the structural error itself. -/
inductive Via where
  | sorted
  | plain
  | structural
  deriving DecidableEq, Inhabited

/-- An error as a script returns it. -/
structure Thrown where
  cause : Cause
  via : Via
  deriving DecidableEq, Inhabited

namespace Thrown

/-- The error as a builder returns it. -/
def toBuildError (t : Thrown) : BuildError :=
  match t.via with
  | .plain => .failed t.cause
  | _ => .ofCause t.cause

/-- The error as a test body or a callback returns it. -/
def toCause (t : Thrown) : Cause :=
  match t.via, t.cause.structural? with
  | .structural, some e => .ofStructural e
  | _, _ => t.cause

end Thrown

/-- What a panic carries: a fixed text, a text made at run time, or something that is no text. -/
inductive Payload where
  | fixed (text : String)
  | made (text : String)
  | other
  deriving DecidableEq, Inhabited

namespace Payload

/-- What is said about a payload that has no text to show. -/
def unreadable : String :=
  "(non-string panic)"

/-- The text of the payload. -/
def message : Payload → String
  | fixed t => t
  | made t => t
  | other => unreadable

/-- What a worker reports; it reads fixed texts only. -/
def workerMessage : Payload → String
  | fixed t => t
  | made _ => unreadable
  | other => unreadable

/-- A caught panic as a cause. -/
def toCause (p : Payload) : Cause :=
  .text ("panicked: " ++ p.message)

end Payload

end TestTree
