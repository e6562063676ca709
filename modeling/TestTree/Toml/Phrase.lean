/-
Keys and values of a TOML document as they are written.

* `readKey` : the key at the front;
* `readValue` : the value at the front;
* `endLine` : the rest of a line that holds nothing more.

Each of them gives what it has read together with the characters that follow.

## Design notes

Arrays and tables in braces nest, up to `depth` of them inside one another, and a key has at most as
many parts.  The bound is what the recursion runs on.
-/
import TestTree.Toml.Draft
import TestTree.Toml.Quoted
import TestTree.Toml.Scalar

namespace TestTree.Toml

/-- How deep values nest, and how many parts a key has, at most. -/
def depth : Nat :=
  79

/-! ### Between values -/

/-- What follows a comment up to the end of its line; the comment may be missing. -/
def afterComment : List Char → List Char
  | '#' :: cs => cs.dropWhile isPlain
  | cs => cs

/-- The next line, if nothing but blanks and a comment is left of this one. -/
def endLine (cs : List Char) : Option (List Char) :=
  match afterComment (skipBlank cs) with
  | [] => some []
  | '\n' :: rest => some rest
  | _ => none

/-- What follows the blanks, the comments and the ends of lines at the front; `comment` says that a
comment is not over yet. -/
def skipLines : Bool → List Char → Option (List Char)
  | _, [] => some []
  | true, c :: cs =>
    if c = '\n' then skipLines false cs
    else if isPlain c then skipLines true cs
    else none
  | false, c :: cs =>
    if isBlank c || c = '\n' then skipLines false cs
    else if c = '#' then skipLines true cs
    else some (c :: cs)

/-! ### Keys -/

/-- A character of a key that needs no quotes. -/
def isBare (c : Char) : Bool :=
  c.isAlphanum || c = '-' || c = '_'

/-- Read one part of a key: bare, or quoted on one line. -/
def readPart : List Char → Option (String × List Char)
  | '"' :: cs => (⟨true, false⟩ : Quoting).read ('"' :: cs)
  | '\'' :: cs => (⟨false, false⟩ : Quoting).read ('\'' :: cs)
  | cs =>
    let part := cs.takeWhile isBare
    if part.isEmpty then none else some (String.ofList part, cs.dropWhile isBare)

/-- Read a key of at most so many parts, with the blanks around them. -/
def readParts : Nat → List Char → Option (Key × List Char)
  | 0, _ => none
  | left + 1, cs => do
    let (part, rest) ← readPart (skipBlank cs)
    match skipBlank rest with
    | '.' :: rest =>
      let (key, rest) ← readParts left rest
      return ({ key with path := part :: key.path }, rest)
    | rest => return (⟨[], part⟩, rest)

/-- Read a key and the blanks around it. -/
def readKey (cs : List Char) : Option (Key × List Char) :=
  readParts depth cs

/-! ### Values -/

/-- A reader of values. -/
abbrev ValueReader := List Char → Option (Value × List Char)

/-- Read the elements of an array, at most so many, after its opening bracket or a comma. -/
def readElements (value : ValueReader) : Nat → List Char → Option (List Value × List Char)
  | 0, _ => none
  | left + 1, cs => do
    match ← skipLines false cs with
    | ']' :: rest => return ([], rest)
    | cs =>
      let (v, rest) ← value cs
      match ← skipLines false rest with
      | ',' :: rest =>
        let (vs, rest) ← readElements value left rest
        return (v :: vs, rest)
      | ']' :: rest => return ([v], rest)
      | _ => none

/-- Read a key, an equals sign and a value. -/
def readPair (value : ValueReader) (cs : List Char) : Option ((Key × Value) × List Char) := do
  match ← readKey cs with
  | (key, '=' :: rest) =>
    let (v, rest) ← value (skipBlank rest)
    return ((key, v), rest)
  | _ => none

/-- Read the entries of a table in braces, at least one and at most so many. -/
def readPairs (value : ValueReader) : Nat → List Char → Option (List (Key × Value) × List Char)
  | 0, _ => none
  | left + 1, cs => do
    let (pair, rest) ← readPair value cs
    match skipBlank rest with
    | ',' :: rest =>
      let (pairs, rest) ← readPairs value left rest
      return (pair :: pairs, rest)
    | '\x7d' :: rest => return ([pair], rest)
    | _ => none

/-- Read a table in braces, after the opening one. -/
def readBraces (value : ValueReader) (cs : List Char) : Option (Value × List Char) :=
  match skipBlank cs with
  | '\x7d' :: rest => some (.table [], rest)
  | cs => do
    let (pairs, rest) ← readPairs value cs.length cs
    return (.table (Branch.finish (← Branch.addAll [] pairs)), rest)

/-- Read a quoted text: on one line, or over several if three marks open it. -/
def readText (cs : List Char) : Option (Value × List Char) := do
  let mark ← cs.head?
  let q : Quoting := ⟨mark = '"', 3 ≤ (cs.takeWhile (· = mark)).length⟩
  let (s, rest) ← q.read cs
  return (.text s, rest)

/-- Read a value with at most so many arrays and tables around any part of it. -/
def readValue : Nat → List Char → Option (Value × List Char)
  | room, cs =>
    match room, cs with
    | room + 1, '[' :: rest => do
      let (vs, rest) ← readElements (readValue room) cs.length rest
      return (.array vs, rest)
    | room + 1, '\x7b' :: rest => readBraces (readValue room) rest
    | _, '"' :: rest => readText ('"' :: rest)
    | _, '\'' :: rest => readText ('\'' :: rest)
    | _, cs => readScalar cs

end TestTree.Toml
