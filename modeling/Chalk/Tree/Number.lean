import Chalk.Decimal.Read
import Chalk.Decimal.Text
import Chalk.Tree.Ty

/-!
Numbers of the language. How a number is written decides what it is: with a point it is a
floating-point value, without one an integer.
-/

namespace Chalk

inductive Number where
  | int (value : Int)
  | float (value : Binary64)
deriving DecidableEq, Repr, Inhabited

namespace Number

def ty : Number → Ty
  | int _ => .int
  | float _ => .float

/-- The number that a text denotes, unless it is an integer of more than 64 bits or no number. -/
def read? (text : String) : Option Number :=
  let cs := text.toList
  if '.' ∈ cs then (Decimal.readFloat? cs).map float else (Decimal.readInt64? cs).map int

/-- A number as listings and C show it. -/
def text : Number → String
  | int value => value.repr
  | float value => String.ofList value.text

example : (read? "2.0").map text = some "2.0" := by decide +kernel

example : (read? "0.0001").map text = some "0.0001" := by decide +kernel

example : (read? "0.00001").map text = some "1e-5" := by decide +kernel

example : (read? "9999999999999998.0").map text = some "9999999999999998.0" := by decide +kernel

example : (read? "10000000000000000.0").map text = some "1e16" := by decide +kernel

/-- Midway between two decimals of the least length the upper one is taken. -/
example : (read? "837246732610571.25").map text = some "837246732610571.3" := by decide +kernel

end Number

end Chalk
