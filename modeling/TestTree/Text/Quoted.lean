/-
Quoted text: a string as it appears inside a description of a value.

* `Text.quoted` : the text between double quotes, with escapes for what would not be seen;
* `Text.record`, `Text.items` : the description of a value with named parts, and of a list.
-/
import TestTree.Text.Unprintable

namespace TestTree.Text

/-- One character inside quotes.  A quote, a backslash and the common controls have a short escape;
any other character that cannot be seen is written by its code point. -/
def escaped (c : Char) : String :=
  match c with
  | '"' => "\\\""
  | '\\' => "\\\\"
  | '\n' => "\\n"
  | '\r' => "\\r"
  | '\t' => "\\t"
  | '\x00' => "\\0"
  | c =>
    if isUnprintable c then
      "\\u\x7b" ++ String.ofList (Nat.toDigits 16 c.toNat) ++ "\x7d"
    else c.toString

/-- A text between double quotes. -/
def quoted (s : String) : String :=
  "\"" ++ String.join (s.toList.map escaped) ++ "\""

/-- A value with named parts: `Name { a: x, b: y }`. -/
def record (name : String) (parts : List (String × String)) : String :=
  name ++ " \x7b " ++ ", ".intercalate (parts.map fun p => p.1 ++ ": " ++ p.2) ++ " \x7d"

/-- A value with one unnamed part: `Name(x)`. -/
def wrapped (name part : String) : String :=
  name ++ "(" ++ part ++ ")"

/-- A list of described values: `[x, y]`. -/
def items (parts : List String) : String :=
  "[" ++ ", ".intercalate parts ++ "]"

/-- A truth value as text. -/
def flag (b : Bool) : String :=
  if b then "true" else "false"

end TestTree.Text
