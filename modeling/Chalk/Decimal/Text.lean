import Chalk.Decimal.Shortest

/-!
Floating-point values as text. A value is written with the shortest digits that read back: plainly,
with at least one digit behind the point, from `0.0001` up to but not including `1e16`, and with an
exponent outside that range.
-/

namespace Chalk

namespace Decimal

/-- Whether a number with the leading digit at the given power of ten is written without an
exponent. -/
def isPlain (power : Int) : Bool :=
  -4 ≤ power && power < 16

/-- Digits with a point behind the first `point` of them, filled up with zeros on either side. -/
def plain (digits : List Char) (point : Int) : List Char :=
  match point with
  | .ofNat 0 => ['0', '.'] ++ digits
  | .ofNat k =>
    let whole := digits.take k ++ List.replicate (k - digits.length) '0'
    match digits.drop k with
    | [] => whole ++ ['.', '0']
    | fraction => whole ++ '.' :: fraction
  | .negSucc k => ['0', '.'] ++ List.replicate (k + 1) '0' ++ digits

/-- Digits with a point behind the first, if there are more, and a power of ten. -/
def scientific (digits : List Char) (power : Int) : List Char :=
  let lead :=
    match digits with
    | first :: d :: ds => first :: '.' :: d :: ds
    | _ => digits
  lead ++ 'e' :: power.repr.toList

/-- A positive decimal without zeros at its end as text. -/
def text (d : Decimal) : List Char :=
  let digits := Nat.toDigits 10 d.digits
  let point := d.exponent + digits.length
  if isPlain (point - 1) then plain digits point else scientific digits (point - 1)

end Decimal

namespace Binary64

def text : Binary64 → List Char
  | nan => ['N', 'a', 'N']
  | infinite negative => sign negative ++ ['i', 'n', 'f']
  | finite negative m q _ =>
    sign negative ++ if m = 0 then ['0', '.', '0'] else (Decimal.shortest m q).text
where
  sign (negative : Bool) : List Char :=
    if negative then ['-'] else []

end Binary64

end Chalk
