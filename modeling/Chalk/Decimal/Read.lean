import Chalk.Decimal.Binary64

/-!
Reading numbers. An integer is an optional sign and digits, and has to fit into 64 bits. A
floating-point number is an optional sign, digits with at most one point among them, and an optional
exponent; it is rounded to the nearest value, whatever its size. The words for the values that have
no digits are read too.
-/

namespace Chalk.Decimal

/-- The sign at the start of a text, if there is one: whether it is a minus, and the rest. -/
def cutSign : List Char → Bool × List Char
  | '-' :: cs => (true, cs)
  | '+' :: cs => (false, cs)
  | cs => (false, cs)

/-- The value of a nonempty row of digits. -/
def readNat? (cs : List Char) : Option Nat :=
  if cs ≠ [] ∧ cs.all Char.isDigit then some (Nat.ofDigitChars 10 cs 0) else none

/-- The value of an optional sign and digits. -/
def readInt? (cs : List Char) : Option Int :=
  let (negative, digits) := cutSign cs
  (readNat? digits).map fun n => if negative then -(n : Int) else n

/-- Whether an integer can be held in 64 bits, one of them for the sign. -/
def fitsInt64 (v : Int) : Bool :=
  -9223372036854775808 ≤ v && v < 9223372036854775808

/-- The value of an integer of 64 bits. -/
def readInt64? (cs : List Char) : Option Int :=
  (readInt? cs).filter fitsInt64

/-- The exponent at the end of a number: nothing, or a letter and an integer. -/
def readExponent? : List Char → Option Int
  | [] => some 0
  | c :: cs => if c = 'e' ∨ c = 'E' then readInt? cs else none

/-- The value of digits, point and exponent. -/
def readMagnitude? (negative : Bool) (cs : List Char) : Option Binary64 :=
  let whole := cs.takeWhile Char.isDigit
  let (fraction, rest) :=
    match cs.dropWhile Char.isDigit with
    | '.' :: ds => (ds.takeWhile Char.isDigit, ds.dropWhile Char.isDigit)
    | ds => ([], ds)
  if whole = [] ∧ fraction = [] then none
  else
    (readExponent? rest).map fun e =>
      .ofDecimal negative (Nat.ofDigitChars 10 (whole ++ fraction) 0) (e - fraction.length)

/-- The floating-point value that a text denotes. -/
def readFloat? (cs : List Char) : Option Binary64 :=
  let (negative, rest) := cutSign cs
  if rest = ['i', 'n', 'f'] then some (.infinite negative)
  else if rest = ['N', 'a', 'N'] then some .nan
  else readMagnitude? negative rest

end Chalk.Decimal
