/-
Where a declaration stands.

* `Location` : a position in a source file, or the number of a declaration site of a script;
* `Location.order` : file, then line, then column; sites by their numbers;
* `Location.fileName` : the file without the directories in front of it.
-/
import TestTree.Text.Quoted

namespace TestTree

/-- The place of a declaration.  Scripts have no file; their declarations stand at numbered sites. -/
inductive Location where
  | file (path : String) (line column : Nat)
  | site (number : Nat)
  deriving DecidableEq, Inhabited

namespace Location

/-- Locations in one file come in reading order; files come in the order of their names. -/
def order : Location → Location → Ordering
  | .file p l c, .file q m d => (compare p q).then ((compare l m).then (compare c d))
  | .file .., .site _ => .lt
  | .site _, .file .. => .gt
  | .site m, .site n => compare m n

/-- `a` stands no later than `b`. -/
def le (a b : Location) : Bool :=
  a.order b != .gt

/-- The part of a path behind its last separator, of either kind. -/
def lastPart (path : String) : String :=
  String.ofList
    (path.toList.reverse.takeWhile fun c => c != '/' && c != '\\').reverse

/-- The file without its directories. -/
def fileName : Location → String
  | .file path _ _ => lastPart path
  | .site _ => ""

/-- `file:line:column`, or `@n` for a numbered site. -/
def display : Location → String
  | .file path line column => s!"{path}:{line}:{column}"
  | .site n => s!"@{n}"

/-- The description of a location as a value. -/
def describe : Location → String
  | .file path line column =>
    Text.record "SourceLocation"
      [("file", Text.quoted path), ("line", toString line), ("column", toString column)]
  | .site n => s!"@{n}"

end Location

end TestTree
