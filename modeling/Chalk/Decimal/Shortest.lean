import Chalk.Decimal.Binary64

/-!
The shortest decimal that reads back as a given floating-point value. The numbers that round to a
value form an interval around it, its ends included when the mantissa is even. On the grid of
decimals of one digit, then of two, and so on, the two neighbours of the value are tried; the first
grid with a neighbour in the interval gives the digits, the nearer of two, and the upper one when
both are equally near.
-/

namespace Chalk

/-- The number `digits * 10 ^ exponent`. -/
structure Decimal where
  digits : Nat
  exponent : Int
deriving DecidableEq, Repr, Inhabited

namespace Decimal

/-- The same number without zeros at the end of its digits. -/
def trim (d : Decimal) : Decimal :=
  if h : d.digits ≠ 0 ∧ d.digits % 10 = 0 then
    have : d.digits / 10 < d.digits := Nat.div_lt_self (Nat.pos_of_ne_zero h.1) (by decide)
    trim { digits := d.digits / 10, exponent := d.exponent + 1 }
  else d
termination_by d.digits

/-- The number of decimal digits of a natural number. -/
def digitCount (n : Nat) : Nat :=
  (Nat.toDigits 10 n).length

/-- The greatest `e` with `10 ^ e ≤ num / den`, for positive numbers. -/
def log10Ratio (num den : Nat) : Int :=
  if den ≤ num then digitCount (num / den) - 1
  else
    let k := digitCount (den / num)
    if den = num * Nat.pow 10 (k - 1) then 1 - k else -k

/-- The interval of numbers that round to a positive value, in quarters of its last place: the ends
and the value itself as numerators over one denominator. -/
structure Neighbourhood where
  low : Nat
  value : Nat
  high : Nat
  den : Nat
  /-- Whether the ends belong to the interval. -/
  closed : Bool
deriving Repr

namespace Neighbourhood

/-- The neighbourhood of `m * 2 ^ q`. Below a power of two the values lie twice as dense, so there
the lower end is half as far away, the least exponent apart. -/
def around (m : Nat) (q : Int) : Neighbourhood :=
  let below := if m = Nat.pow 2 52 ∧ -1074 < q then 1 else 2
  let (unit, den) : Nat × Nat :=
    match q - 2 with
    | .ofNat k => (Nat.pow 2 k, 1)
    | .negSucc k => (1, Nat.pow 2 (k + 1))
  { low := (4 * m - below) * unit
    value := 4 * m * unit
    high := (4 * m + 2) * unit
    den
    closed := m % 2 == 0 }

/-- The neighbourhood with all numbers divided by `10 ^ k`. -/
def shift (w : Neighbourhood) (k : Int) : Neighbourhood :=
  match k with
  | .ofNat k => { w with den := w.den * Nat.pow 10 k }
  | .negSucc k =>
    let by10 := Nat.pow 10 (k + 1)
    { w with low := w.low * by10, value := w.value * by10, high := w.high * by10 }

/-- Whether a natural number lies in the interval. -/
def contains (w : Neighbourhood) (n : Nat) : Bool :=
  if w.closed then w.low ≤ n * w.den && n * w.den ≤ w.high
  else w.low < n * w.den && n * w.den < w.high

/-- The natural number next to the value that lies in the interval, the nearer of two, the upper one
on a tie. -/
def nearest? (w : Neighbourhood) : Option Nat :=
  let below := w.value / w.den
  match w.contains below, w.contains (below + 1) with
  | true, true => some (if 2 * (w.value % w.den) < w.den then below else below + 1)
  | true, false => some below
  | false, true => some (below + 1)
  | false, false => none

end Neighbourhood

/-- The shortest decimal that reads back as `m * 2 ^ q`, for a positive `m`. Seventeen digits always
suffice. -/
def shortest (m : Nat) (q : Int) : Decimal :=
  let w := Neighbourhood.around m q
  let top := log10Ratio w.value w.den
  let onGrid (n : Nat) : Option Decimal :=
    let exponent := top - n
    (w.shift exponent).nearest?.map fun digits => { digits, exponent }
  (((List.range 17).findSome? onGrid).getD { digits := m, exponent := 0 }).trim

end Decimal

end Chalk
