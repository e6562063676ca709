/-
TOML documents.

* `Line` : a pair of a key and a value, or the header of a table or of an element;
* `readLines` : a document as lines;
* `Section` : a header with the pairs below it;
* `read` : the entries of a document.
-/
import TestTree.Toml.Phrase

namespace TestTree.Toml

/-- The header of a table, or of one more element of an array of tables. -/
structure Header where
  element : Bool
  key : Key
  deriving DecidableEq, Inhabited

/-- A line that says something. -/
inductive Line where
  | pair (key : Key) (v : Value)
  | header (h : Header)
  deriving Inhabited

/-- Read a header, from its brackets on. -/
def readHeader : List Char → Option (Header × List Char)
  | '[' :: '[' :: cs => do
    match ← readKey cs with
    | (key, ']' :: ']' :: rest) => return (⟨true, key⟩, rest)
    | _ => none
  | '[' :: cs => do
    match ← readKey cs with
    | (key, ']' :: rest) => return (⟨false, key⟩, rest)
    | _ => none
  | _ => none

/-- Read a line that says something, without the blanks before it. -/
def readLine (cs : List Char) : Option (Line × List Char) :=
  match cs with
  | '[' :: _ => do
    let (h, rest) ← readHeader cs
    return (.header h, ← endLine rest)
  | _ => do
    let ((key, v), rest) ← readPair (readValue depth) cs
    return (.pair key v, ← endLine rest)

/-- Read at most so many lines, among them those that say nothing. -/
def readLines : Nat → List Char → Option (List Line)
  | 0, _ => none
  | left + 1, cs =>
    match skipBlank cs with
    | [] => some []
    | '\n' :: rest => readLines left rest
    | '#' :: rest => do readLines left (← endLine ('#' :: rest))
    | cs => do
      let (line, rest) ← readLine cs
      return line :: (← readLines left rest)

/-- A header and the pairs below it. -/
structure Section where
  header : Header
  pairs : List (Key × Value)
  deriving Inhabited

/-- The pairs before the first header, and the sections. -/
def sections : List Line → List (Key × Value) × List Section
  | [] => ([], [])
  | .pair key v :: rest =>
    let (pairs, later) := sections rest
    ((key, v) :: pairs, later)
  | .header h :: rest =>
    let (pairs, later) := sections rest
    ([], ⟨h, pairs⟩ :: later)

/-- Add a section to what was read before it. -/
def Branch.addSection (b : Branch) (s : Section) : Option Branch :=
  if s.header.element then b.openElement s.header.key s.pairs
  else b.openTable s.header.key s.pairs

/-- The table that lines make up. -/
def Branch.ofLines (lines : List Line) : Option Branch := do
  let (pairs, later) := sections lines
  later.foldlM addSection (← addAll [] pairs)

/-- A text with one character at the end of each line, where it may have had two. -/
def plainLines : List Char → List Char
  | '\r' :: '\n' :: cs => '\n' :: plainLines cs
  | c :: cs => c :: plainLines cs
  | [] => []

/-- What follows a byte order mark. -/
def afterMark : List Char → List Char
  | '\ufeff' :: cs => cs
  | cs => cs

/-- The entries of a document. -/
def read (s : String) : Option (List (String × Value)) := do
  let cs := plainLines (afterMark s.toList)
  let lines ← readLines (cs.length + 1) cs
  return Branch.finish (← Branch.ofLines lines)

end TestTree.Toml
