/-
Quoted texts of a TOML document.

* `Quoting` : one of the four ways to quote, by the mark and by whether it spans lines;
* `Quoting.read` : the text that a quotation at the front stands for, and what follows;
* `Quoting.write` : a text between marks, with the escapes that it needs;
* `Quoting.best` : the way that shows a text most plainly.

## Design notes

A quotation opens and closes with one mark, or with three where it spans lines.  Up to two marks
more may stand directly before the closing three: they belong to the text.  So the run of marks at a
position decides whether the text ends there, and how many of the marks it keeps.
-/
import TestTree.Toml.Value

namespace TestTree.Toml

/-- A way to quote: with escapes (and double marks) or literally (and single marks), on one line or
over several. -/
structure Quoting where
  escapes : Bool
  lines : Bool
  deriving DecidableEq, Inhabited

namespace Quoting

/-- The character that opens and closes. -/
def mark (q : Quoting) : Char :=
  if q.escapes then '"' else '\''

/-- How many marks open and close. -/
def width (q : Quoting) : Nat :=
  if q.lines then 3 else 1

/-- The marks that open and close. -/
def marks (q : Quoting) : List Char :=
  List.replicate q.width q.mark

/-! ### Reading -/

/-- The character that a letter after a backslash stands for. -/
def escaped? : Char → Option Char
  | 'b' => some '\x08'
  | 't' => some '\t'
  | 'n' => some '\n'
  | 'f' => some '\x0c'
  | 'r' => some '\r'
  | '"' => some '"'
  | '\\' => some '\\'
  | _ => none

/-- The character with a code point, if that is one. -/
def charOf? (n : Nat) : Option Char :=
  if n.isValidChar then some (Char.ofNat n) else none

/-- The end of the text at the front, if it ends there: the marks that it keeps, and what follows
the closing ones. -/
def close? (q : Quoting) (cs : List Char) : Option (List Char × List Char) :=
  let run := (cs.takeWhile (· = q.mark)).length
  if q.width ≤ run then
    let kept := min (run - q.width) (q.width - 1)
    some (List.replicate kept q.mark, cs.drop (kept + q.width))
  else none

/-- Where a reader of a quoted text stands. -/
inductive Stand where
  /-- Between characters. -/
  | text
  /-- After a backslash. -/
  | escape
  /-- Inside a code point, with digits left to read. -/
  | code (left value : Nat)
  /-- After a backslash and blanks, before the end of the line. -/
  | gap
  /-- After an escaped end of line: blanks and line ends do not count. -/
  | skip

/-- Read a text up to its closing marks. -/
def body (q : Quoting) : Stand → List Char → Option (List Char × List Char)
  | _, [] => none
  | .escape, c :: cs =>
    if c = 'u' then q.body (.code 4 0) cs
    else if c = 'U' then q.body (.code 8 0) cs
    else if q.lines && c = '\n' then q.body .skip cs
    else if q.lines && isBlank c then q.body .gap cs
    else do
      let d ← escaped? c
      let (ds, rest) ← q.body .text cs
      return (d :: ds, rest)
  | .gap, c :: cs =>
    if isBlank c then q.body .gap cs
    else if c = '\n' then q.body .skip cs
    else none
  | .code left value, c :: cs => do
    let value := value * 16 + (← digit? 16 c)
    if left ≤ 1 then
      let d ← charOf? value
      let (ds, rest) ← q.body .text cs
      return (d :: ds, rest)
    else q.body (.code (left - 1) value) cs
  | stand, c :: cs =>
    if stand matches .skip && (isBlank c || c = '\n') then q.body .skip cs
    else
      match q.close? (c :: cs) with
      | some ending => some ending
      | none =>
        if q.escapes && c = '\\' then q.body .escape cs
        else if isPlain c || (q.lines && c = '\n') then do
          let (ds, rest) ← q.body .text cs
          return (c :: ds, rest)
        else none

/-- What follows the opening marks.  An end of line right after three marks does not count. -/
def afterOpening (q : Quoting) (cs : List Char) : List Char :=
  match q.lines, cs.drop q.width with
  | true, '\n' :: rest => rest
  | _, rest => rest

/-- Read a quotation whose opening marks are at the front. -/
def read (q : Quoting) (cs : List Char) : Option (String × List Char) := do
  let (ds, rest) ← q.body .text (q.afterOpening cs)
  return (String.ofList ds, rest)

/-! ### Writing -/

/-- A character that cannot be shown in any quotation without an escape. -/
def isCode (c : Char) : Bool :=
  (c.toNat < 0x20 && c ≠ '\t' && c ≠ '\n') || c.toNat = 0x7f

/-- The length of the longest run of a character, where `n` more stand directly before. -/
def longestRun (m : Char) : Nat → List Char → Nat
  | n, [] => n
  | n, c :: cs => if c = m then longestRun m (n + 1) cs else max n (longestRun m 0 cs)

/-- The way of quoting shows the text as it is, tabs apart. -/
def shows (q : Quoting) (cs : List Char) : Bool :=
  !cs.any isCode
    && (q.lines || !cs.contains '\n')
    && (!q.escapes || !cs.contains '\\')
    && longestRun q.mark 0 cs < q.width

/-- The plainest way to quote a text: the first of the four that shows it as it is, and else the one
with escapes. -/
def best (cs : List Char) : Quoting :=
  ([⟨true, false⟩, ⟨false, false⟩, ⟨true, true⟩, ⟨false, true⟩].find? fun q => q.shows cs).getD
    ⟨true, cs.contains '\n'⟩

/-- Four hexadecimal digits, in capitals. -/
def fourDigits (n : Nat) : List Char :=
  [n / 4096 % 16, n / 256 % 16, n / 16 % 16, n % 16].map fun d =>
    Char.ofNat (if d < 10 then '0'.toNat + d else 'A'.toNat + d - 10)

/-- A character inside marks, a double mark apart. -/
def escapedChar (q : Quoting) (c : Char) : List Char :=
  match c with
  | '\x08' => ['\\', 'b']
  | '\t' => ['\\', 't']
  | '\x0c' => ['\\', 'f']
  | '\r' => ['\\', 'r']
  | '\\' => ['\\', '\\']
  | '\n' => if q.lines then ['\n'] else ['\\', 'n']
  | c => if isCode c then '\\' :: 'u' :: fourDigits c.toNat else [c]

/-- A text with escapes, where `n` bare marks stand directly before.  A mark is escaped if it would
complete a run of closing marks. -/
def escape (q : Quoting) : Nat → List Char → List Char
  | _, [] => []
  | n, c :: cs =>
    if c = '"' then
      if n + 1 < q.width then '"' :: q.escape (n + 1) cs else '\\' :: '"' :: q.escape 0 cs
    else q.escapedChar c ++ q.escape 0 cs

/-- A quoted text.  One that holds an end of line starts on a line of its own. -/
def write (q : Quoting) (cs : List Char) : List Char :=
  q.marks
    ++ (if q.lines && cs.contains '\n' then ['\n'] else [])
    ++ (if q.escapes then q.escape 0 cs else cs)
    ++ q.marks

end Quoting

/-- A text quoted the plainest way. -/
def quoted (s : String) : List Char :=
  (Quoting.best s.toList).write s.toList

end TestTree.Toml
