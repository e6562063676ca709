/-
Formats of documents whose entries are values without parts.

* `Scalar`, `write` : values without parts, and a document of them under bare names;
* `Format` : a reader and a writer of documents;
* `Format.Faithful` : what is written is read back, and whole numbers beyond 64 bits are refused;
* `Format.standard` : the reader and the writer of this library.

## Design notes

Settings are kept in documents of whatever format they are given.  What they rely on is that it is
faithful, which says nothing of the spelling of values or of the order of lines.
-/
import TestTree.Text.Quoted
import TestTree.Toml.Document

namespace TestTree.Toml

/-- A value without parts, of a kind that settings have. -/
inductive Scalar where
  | text (s : String)
  | whole (n : Nat)
  | flag (b : Bool)
  deriving DecidableEq, Inhabited

namespace Scalar

/-- The value in a document. -/
def value : Scalar → Value
  | text s => .text s
  | whole n => .whole n
  | flag b => .flag b

/-- The value as it is written. -/
def written : Scalar → List Char
  | text s => quoted s
  | whole n => (toString n).toList
  | flag b => (Text.flag b).toList

/-- A whole number has no more than 64 bits with a sign. -/
def fits : Scalar → Bool
  | whole n => n < wholeBound
  | _ => true

end Scalar

/-- A name that needs no quotes. -/
def isBareName (name : String) : Bool :=
  !name.toList.isEmpty && name.toList.all isBare

/-- The line of an entry. -/
def line (e : String × Scalar) : List Char :=
  e.1.toList ++ ' ' :: '=' :: ' ' :: e.2.written ++ ['\n']

/-- The document of entries with bare names, unless a number is too large for one. -/
def write (es : List (String × Scalar)) : Option String :=
  if es.all fun e => isBareName e.1 && e.2.fits then some (String.ofList (es.flatMap line))
  else none

/-- A reader of documents, and a writer of documents with such values. -/
structure Format where
  read : String → Option (List (String × Value))
  write : List (String × Scalar) → Option String

namespace Format

/-- What users of a format rely on. -/
structure Faithful (f : Format) : Prop where
  /-- Entries with different bare names can be written, unless a number is too large, and are read
  back: each name has its value, and no other name has any. -/
  reads : ∀ es : List (String × Scalar), (es.map Prod.fst).Nodup →
    (∀ e ∈ es, isBareName e.1 = true ∧ e.2.fits = true) →
    ∃ content table, f.write es = some content ∧ f.read content = some table ∧
      ∀ name, table.lookup name = (es.lookup name).map Scalar.value
  /-- A whole number that is too large is refused. -/
  refuses : ∀ es : List (String × Scalar), ∀ e ∈ es, e.2.fits = false → f.write es = none

/-- The format that is read and written here. -/
def standard : Format :=
  ⟨Toml.read, Toml.write⟩

end Format

end TestTree.Toml
