import Chalk.Text.Utf8

/-!
What a string literal denotes. Between its quotes a literal is a row of items: a plain character
stands for its UTF-8 bytes, a backslash and a letter for one byte, and `\x` with one or two
hexadecimal digits for the byte of that value. A backslash that starts none of these stands for
itself. The result is bytes, since `\x` can give a byte that is no UTF-8 text on its own.
-/

namespace Chalk

namespace Escape

/-- The value of a hexadecimal digit of either case. -/
def hexDigit? (c : Char) : Option UInt8 :=
  if '0' ≤ c ∧ c ≤ '9' then some (c.toUInt8 - 0x30)
  else if 'a' ≤ c ∧ c ≤ 'f' then some (c.toUInt8 - 0x61 + 10)
  else if 'A' ≤ c ∧ c ≤ 'F' then some (c.toUInt8 - 0x41 + 10)
  else none

/-- The byte given by the one or two hexadecimal digits at the start of a text. -/
def hexByte? : List Char → Option (UInt8 × List Char)
  | [] => none
  | [a] => (hexDigit? a).map fun i => (i, [])
  | a :: b :: cs =>
    match hexDigit? a, hexDigit? b with
    | none, _ => none
    | some i, none => some (i, b :: cs)
    | some i, some j => some (16 * i + j, cs)

/-- The byte of a backslash and one character. -/
def simple? (c : Char) : Option UInt8 :=
  if c = 'n' then some 0x0a
  else if c = 't' then some 0x09
  else if c = 'r' then some 0x0d
  else if c = '\\' then some 0x5c
  else if c = '"' then some 0x22
  else if c = '0' then some 0x00
  else none

/-- The bytes of the item that begins with `c`, and what follows the item. -/
def item (c : Char) (cs : List Char) : List UInt8 × List Char :=
  if c = '\\' then
    match cs with
    | [] => ([0x5c], [])
    | d :: ds =>
      if d = 'x' then
        match hexByte? ds with
        | some (b, rest) => ([b], rest)
        | none => ([0x5c, 0x78], ds)
      else
        match simple? d with
        | some b => ([b], ds)
        | none => ([0x5c], d :: ds)
  else (String.utf8EncodeChar c, cs)

theorem length_of_hexByte? {cs rest : List Char} {b : UInt8} (h : hexByte? cs = some (b, rest)) :
    rest.length < cs.length := by
  unfold hexByte? at h
  split at h
  · simp at h
  · obtain ⟨_, _, heq⟩ := Option.map_eq_some_iff.1 h
    cases heq
    simp
  · split at h
    · simp at h
    · cases h
      exact Nat.lt_succ_self _
    · cases h
      exact Nat.lt_succ_of_lt (Nat.lt_succ_self _)

theorem length_item (c : Char) (cs : List Char) : (item c cs).2.length ≤ cs.length := by
  unfold item
  split
  · split
    · simp
    · split
      · split
        · rename_i h
          have := length_of_hexByte? h
          simp
          omega
        · simp
      · split <;> simp
  · simp

end Escape

/-- The bytes that the text of a string literal denotes. -/
def unescape : List Char → List UInt8
  | [] => []
  | c :: cs => (Escape.item c cs).1 ++ unescape (Escape.item c cs).2
termination_by cs => cs.length
decreasing_by
  have := Escape.length_item c cs
  simp
  omega

end Chalk
