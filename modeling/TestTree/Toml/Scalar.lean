/-
Words of a TOML document that stand for a value: numbers, truth values and points in time.

* `whole?`, `isFloat`, `isMoment` : the three spellings that are more than a fixed word;
* `scalar?` : the value of a word;
* `readScalar` : the word at the front as a value, and what follows.
-/
import TestTree.Toml.Value

namespace TestTree.Toml

/-! ### Numbers -/

/-- The value of digits, with single underscores between them: `value` is what was read so far, and
`closed` says that a digit came last. -/
def digitsFrom (base : Nat) : Nat → Bool → List Char → Option Nat
  | value, closed, [] => if closed then some value else none
  | value, closed, c :: cs =>
    if c = '_' then if closed then digitsFrom base value false cs else none
    else do digitsFrom base (value * base + (← digit? base c)) true cs

/-- The value of one or more digits, with single underscores between them. -/
def digits? (base : Nat) (cs : List Char) : Option Nat :=
  digitsFrom base 0 false cs

/-- The value of decimal digits without a leading zero. -/
def decimal? (cs : List Char) : Option Nat :=
  if cs.head? = some '0' && cs.length ≠ 1 then none else digits? 10 cs

/-- Whether a minus sign is at the front, and what follows a sign. -/
def splitSign : List Char → Bool × List Char
  | '-' :: cs => (true, cs)
  | '+' :: cs => (false, cs)
  | cs => (false, cs)

/-- One more than the largest whole number, which has 64 bits with a sign. -/
def wholeBound : Nat :=
  9223372036854775808

/-- The number fits into 64 bits with a sign. -/
def inRange (n : Int) : Bool :=
  -wholeBound ≤ n && n < wholeBound

/-- A whole number: decimal with a sign or none, or in one of the bases that a letter announces. -/
def whole? (cs : List Char) : Option Int :=
  let n? : Option Int :=
    match cs with
    | '0' :: 'x' :: ds => (digits? 16 ds).map Int.ofNat
    | '0' :: 'o' :: ds => (digits? 8 ds).map Int.ofNat
    | '0' :: 'b' :: ds => (digits? 2 ds).map Int.ofNat
    | _ =>
      let (negative, ds) := splitSign cs
      (decimal? ds).map fun n => if negative then -(n : Int) else n
  n?.filter inRange

/-- The least number that does not round to a finite one of 64 bits. -/
def overflowBound : Nat :=
  Nat.pow 2 1024 - Nat.pow 2 970

/-- The number `m · 10 ^ e` is at least `overflowBound`, which has 309 digits. -/
def overflows (m : Nat) (e : Int) : Bool :=
  let size := (Nat.toDigits 10 m).length + e
  if m = 0 || size < 309 then false
  else if 309 < size then true
  else overflowBound * Nat.pow 10 (-e).toNat ≤ m * Nat.pow 10 e.toNat

/-- Digits and underscores. -/
def isDigitOrGap (c : Char) : Bool :=
  c.isDigit || c = '_'

/-- The exponent at the end of a number; without one it is zero. -/
def exponent? : List Char → Option Int
  | [] => some 0
  | c :: cs =>
    if c = 'e' || c = 'E' then
      let (negative, ds) := splitSign cs
      (digits? 10 ds).map fun n => if negative then -(n : Int) else n
    else none

/-- Digits, a fraction or an exponent or both: the digits as one number and the power of ten to
multiply it with. -/
def fraction? (cs : List Char) : Option (Nat × Int) := do
  let whole ← decimal? (cs.takeWhile isDigitOrGap)
  match cs.dropWhile isDigitOrGap with
  | [] => none
  | '.' :: rest =>
    let places := rest.takeWhile isDigitOrGap
    let count := places.countP Char.isDigit
    let part ← digits? 10 places
    let e ← exponent? (rest.dropWhile isDigitOrGap)
    return (whole * Nat.pow 10 count + part, e - count)
  | rest => return (whole, ← exponent? rest)

/-- A number with a fraction or an exponent, infinity, or the number that is none.  A number above
all finite ones of 64 bits is refused, one below them is not. -/
def isFloat (cs : List Char) : Bool :=
  let (negative, ds) := splitSign cs
  if ds = ['i', 'n', 'f'] || ds = ['n', 'a', 'n'] then true
  else
    match fraction? ds with
    | some (m, e) => negative || !overflows m e
    | none => false

/-! ### Points in time -/

/-- A number of two digits. -/
def twoDigits? (a b : Char) : Option Nat :=
  digits? 10 [a, b]

/-- The days of a month. -/
def daysOf (year month : Nat) : Nat :=
  if month = 2 then
    if year % 4 = 0 && (year % 100 ≠ 0 || year % 400 = 0) then 29 else 28
  else if month = 4 || month = 6 || month = 9 || month = 11 then 30
  else 31

/-- What follows the date at the front. -/
def afterDate? : List Char → Option (List Char)
  | a :: b :: c :: d :: '-' :: e :: f :: '-' :: g :: h :: rest => do
    let year := (← twoDigits? a b) * 100 + (← twoDigits? c d)
    let month ← twoDigits? e f
    let day ← twoDigits? g h
    if 1 ≤ month && month ≤ 12 && 1 ≤ day && day ≤ daysOf year month then some rest else none
  | _ => none

/-- What follows the time of day at the front.  A minute may have a second more. -/
def afterTime? : List Char → Option (List Char)
  | a :: b :: ':' :: c :: d :: ':' :: e :: f :: rest => do
    let hour ← twoDigits? a b
    let minute ← twoDigits? c d
    let second ← twoDigits? e f
    if hour ≤ 23 && minute ≤ 59 && second ≤ 60 then
      match rest with
      | '.' :: places =>
        if (places.takeWhile Char.isDigit).isEmpty then none
        else some (places.dropWhile Char.isDigit)
      | rest => some rest
    else none
  | _ => none

/-- The distance from universal time, or nothing. -/
def isOffset : List Char → Bool
  | [] => true
  | ['Z'] => true
  | ['z'] => true
  | [s, a, b, ':', c, d] =>
    (s = '+' || s = '-')
      && (twoDigits? a b).any (· ≤ 23)
      && (twoDigits? c d).any (· ≤ 59)
  | _ => false

/-- A date, a time of day, or both with or without an offset. -/
def isMoment (cs : List Char) : Bool :=
  match afterDate? cs with
  | some [] => true
  | some (c :: rest) => (c = 'T' || c = 't' || c = ' ') && (afterTime? rest).any isOffset
  | none => afterTime? cs = some []

/-! ### Words -/

/-- The value of a word. -/
def scalar? (cs : List Char) : Option Value :=
  if cs = ['t', 'r', 'u', 'e'] then some (.flag true)
  else if cs = ['f', 'a', 'l', 's', 'e'] then some (.flag false)
  else
    match whole? cs with
    | some n => some (.whole n)
    | none =>
      if isFloat cs then some (.float (String.ofList cs))
      else if isMoment cs then some (.moment (String.ofList cs))
      else none

/-- A character of a word. -/
def isWordChar (c : Char) : Bool :=
  c.isAlphanum || c = '+' || c = '-' || c = '.' || c = ':' || c = '_'

/-- Read the word at the front.  A date and the word after it are one value, with a single space
between them. -/
def readScalar (cs : List Char) : Option (Value × List Char) :=
  let word := cs.takeWhile isWordChar
  let alone := (scalar? word).map fun v => (v, cs.dropWhile isWordChar)
  match cs.dropWhile isWordChar with
  | ' ' :: rest =>
    let next := rest.takeWhile isWordChar
    if afterDate? word = some [] && !next.isEmpty then
      (scalar? (word ++ ' ' :: next)).map fun v => (v, rest.dropWhile isWordChar)
    else alone
  | _ => alone

end TestTree.Toml
