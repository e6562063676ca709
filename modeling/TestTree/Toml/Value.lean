/-
Values of a TOML document.

* `Toml.Value` : what stands to the right of an equals sign;
* `Toml.Key` : the way to an entry, `a.b.c`.
-/

namespace TestTree.Toml

/-- A value.  Numbers with a fraction and points in time are kept as they were written: a document
has to spell them correctly, but settings hold none. -/
inductive Value where
  | text (s : String)
  | whole (n : Int)
  | flag (b : Bool)
  | float (written : String)
  | moment (written : String)
  | array (items : List Value)
  | table (entries : List (String × Value))
  deriving Inhabited

/-- The way to an entry: the tables to go through, and the entry's name in the last of them. -/
structure Key where
  path : List String
  name : String
  deriving DecidableEq, Inhabited

/-- A blank inside a line. -/
def isBlank (c : Char) : Bool :=
  c = ' ' || c = '\t'

/-- A character that comments and quoted texts may hold as it is: no control other than the tab. -/
def isPlain (c : Char) : Bool :=
  c = '\t' || (0x20 ≤ c.toNat && c.toNat ≠ 0x7f)

/-- What follows the blanks at the front. -/
def skipBlank (cs : List Char) : List Char :=
  cs.dropWhile isBlank

/-- The value of a digit in a base of at most sixteen. -/
def digit? (base : Nat) (c : Char) : Option Nat :=
  let d :=
    if '0' ≤ c ∧ c ≤ '9' then c.toNat - '0'.toNat
    else if 'a' ≤ c ∧ c ≤ 'f' then c.toNat - 'a'.toNat + 10
    else if 'A' ≤ c ∧ c ≤ 'F' then c.toNat - 'A'.toNat + 10
    else 16
  if d < base then some d else none

end TestTree.Toml
