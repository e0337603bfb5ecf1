/-!
Floating-point values of 64 bits. A finite value is a sign and a magnitude `m * 2 ^ q`; the mantissa
`m` has at most 53 bits, and exactly 53 unless `q` is the least exponent, so each magnitude has one
form. `ofRatio` gives the value nearest to a quotient of natural numbers, an even mantissa on a tie,
and an infinite value when the quotient is too large.
-/

namespace Chalk

namespace Binary64

/-- The mantissa and exponent of a magnitude in its one form. -/
def IsNormal (m : Nat) (q : Int) : Prop :=
  m < Nat.pow 2 53 ∧ -1074 ≤ q ∧ q ≤ 971 ∧ (Nat.pow 2 52 ≤ m ∨ q = -1074)

instance (m : Nat) (q : Int) : Decidable (IsNormal m q) :=
  inferInstanceAs (Decidable (_ ∧ _))

end Binary64

inductive Binary64 where
  | nan
  | infinite (negative : Bool)
  | finite (negative : Bool) (m : Nat) (q : Int) (normal : Binary64.IsNormal m q)
deriving DecidableEq, Repr

namespace Binary64

def zero (negative : Bool) : Binary64 :=
  finite negative 0 (-1074) (by decide)

instance : Inhabited Binary64 :=
  ⟨zero false⟩

/-- The quotient `num / (den * 2 ^ q)` as a pair of natural numbers. -/
def scale (num den : Nat) (q : Int) : Nat × Nat :=
  match q with
  | .ofNat k => (num, den * Nat.pow 2 k)
  | .negSucc k => (num * Nat.pow 2 (k + 1), den)

/-- The quotient rounded to the nearest natural number, a half to the even one. -/
def roundHalfEven (num den : Nat) : Nat :=
  let low := num / den
  let twice := 2 * (num % den)
  if twice < den then low
  else if den < twice then low + 1
  else if low % 2 = 0 then low
  else low + 1

/-- The greatest `e` with `2 ^ e ≤ num / den`, for positive numbers. -/
def log2Ratio (num den : Nat) : Int :=
  let e : Int := num.log2 - den.log2
  let (a, b) := scale num den e
  if a < b then e - 1 else e

/-- The value nearest to `num / den`, for a positive `den`. -/
def ofRatio (negative : Bool) (num den : Nat) : Binary64 :=
  if num = 0 then zero negative
  else
    let q := max (log2Ratio num den - 52) (-1074)
    let (a, b) := scale num den q
    let m := roundHalfEven a b
    let (m, q) := if m = Nat.pow 2 53 then (Nat.pow 2 52, q + 1) else (m, q)
    if h : IsNormal m q then finite negative m q h else infinite negative

/-- The value nearest to `digits * 10 ^ exponent`. Magnitudes from `10 ^ 310` on are infinite and
those below `10 ^ (-325)` are zero, which keeps the powers small. -/
def ofDecimal (negative : Bool) (digits : Nat) (exponent : Int) : Binary64 :=
  let size : Int := exponent + (Nat.toDigits 10 digits).length
  if digits = 0 then zero negative
  else if 310 < size then infinite negative
  else if size < -325 then zero negative
  else
    match exponent with
    | .ofNat k => ofRatio negative (digits * Nat.pow 10 k) 1
    | .negSucc k => ofRatio negative digits (Nat.pow 10 (k + 1))

end Binary64

end Chalk
