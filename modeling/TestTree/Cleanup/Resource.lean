/-
Resources: what close callbacks are registered for.

* `Resource.Kind` : the kinds of values that scripts can acquire;
* `Resource.label` : how teardown errors name the kind;
* `Resource.text` : what a value of the kind shows when it is closed.
-/

namespace TestTree

/-- The kinds of resources. -/
inductive Resource.Kind where
  | literal
  | text
  | natural
  | integer
  | truth
  | unit
  | shared
  | bytes
  | pair
  deriving DecidableEq, Inhabited

/-- A resource, written down as the text it was made from. -/
structure Resource where
  kind : Resource.Kind
  source : String
  deriving DecidableEq, Inhabited

namespace Resource

/-- The name of the kind in reports. -/
def label (r : Resource) : String :=
  match r.kind with
  | .literal => "&str"
  | .text => "alloc::string::String"
  | .natural => "u32"
  | .integer => "i64"
  | .truth => "bool"
  | .unit => "()"
  | .shared => "alloc::sync::Arc<alloc::string::String>"
  | .bytes => "alloc::vec::Vec<u8>"
  | .pair => "(alloc::string::String, u8)"

/-- The value of decimal digits; there has to be at least one. -/
def digits? (cs : List Char) : Option Nat :=
  if cs.isEmpty || !cs.all Char.isDigit then none
  else some (cs.foldl (fun n c => 10 * n + (c.toNat - '0'.toNat)) 0)

/-- A number of 32 bits, with an optional plus sign; 0 if the text is none. -/
def naturalValue (s : String) : Nat :=
  let cs := s.toList
  let value := digits? (if cs.head? = some '+' then cs.tail else cs)
  match value with
  | some n => if n < 4294967296 then n else 0
  | none => 0

/-- A signed number of 64 bits, with an optional sign; 0 if the text is none. -/
def integerValue (s : String) : Int :=
  match s.toList with
  | '-' :: cs =>
    match digits? cs with
    | some n => if n ≤ 9223372036854775808 then -n else 0
    | none => 0
  | cs =>
    match digits? (if cs.head? = some '+' then cs.tail else cs) with
    | some n => if n < 9223372036854775808 then n else 0
    | none => 0

/-- The text of the value. -/
def text (r : Resource) : String :=
  match r.kind with
  | .natural => toString (naturalValue r.source)
  | .integer => toString (integerValue r.source)
  | .truth => if r.source == "true" then "true" else "false"
  | .unit => "()"
  | .bytes => toString r.source.utf8ByteSize
  | _ => r.source

end Resource

end TestTree
