/-
Blank text: the characters of the Unicode property `White_Space`.

* `Text.isBlankChar` : the class;
* `Text.isBlank` : a text that holds nothing else.
-/

namespace TestTree.Text

/-- Inclusive ranges of the white space characters. -/
def blankRanges : List (Nat × Nat) :=
  [(0x9, 0xd), (0x20, 0x20), (0x85, 0x85), (0xa0, 0xa0), (0x1680, 0x1680), (0x2000, 0x200a),
   (0x2028, 0x2029), (0x202f, 0x202f), (0x205f, 0x205f), (0x3000, 0x3000)]

/-- A white space character. -/
def isBlankChar (c : Char) : Bool :=
  blankRanges.any fun r => r.1 ≤ c.toNat && c.toNat ≤ r.2

/-- A text of white space alone; the empty text is one. -/
def isBlank (s : String) : Bool :=
  s.toList.all isBlankChar

end TestTree.Text
