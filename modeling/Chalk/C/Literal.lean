/-!
String literals of C. Every byte is written so that the literal is printable ASCII on one line: the
usual escapes, the printable characters as they are, and all else as three octal digits, which no
following digit can extend.
-/

namespace Chalk.C

/-- The octal digit of the given value. -/
def octalDigit (b : UInt8) : Char :=
  Char.ofUInt8 (0x30 + b % 8)

/-- One byte inside a string literal. -/
def escapeByte (b : UInt8) : List Char :=
  if b = 0x5c then ['\\', '\\']
  else if b = 0x22 then ['\\', '"']
  else if b = 0x0a then ['\\', 'n']
  else if b = 0x09 then ['\\', 't']
  else if b = 0x0d then ['\\', 'r']
  else if 0x20 ≤ b ∧ b ≤ 0x7e then [Char.ofUInt8 b]
  else ['\\', octalDigit (b / 64), octalDigit (b / 8), octalDigit b]

/-- The inside of the literal for some bytes. -/
def escape (bytes : List UInt8) : List Char :=
  bytes.flatMap escapeByte

end Chalk.C
