import Chalk.Proofs.Token.Lexing
import Chalk.Token.Escape

/-!
# Every way of writing a string

Between its quotes a string is a row of items (`Literal.Item`): plain characters, escapes of one
letter, and bytes written in hexadecimal. Cutting the string from a source and reading what it
denotes both go through it from left to right, but each by rules of its own: the first only pairs a
backslash with the character behind it, the second takes the digits of a byte as well. Both come to
the end of an item exactly where it ends (`Literal.Item.cutClosed?_text`,
`Literal.Item.unescape_text`), whatever follows it.
-/

namespace Chalk

namespace Literal

/-- The escapes of a backslash and one character. -/
inductive Letter where
  | newline | tab | carriageReturn | backslash | quote | null
deriving DecidableEq, Repr, Inhabited

namespace Letter

/-- The character behind the backslash. -/
def char : Letter → Char
  | newline => 'n'
  | tab => 't'
  | carriageReturn => 'r'
  | backslash => '\\'
  | quote => '"'
  | null => '0'

def byte : Letter → UInt8
  | newline => 10
  | tab => 9
  | carriageReturn => 13
  | backslash => 92
  | quote => 34
  | null => 0

theorem simple?_char (l : Letter) : Escape.simple? l.char = some l.byte := by
  cases l <;> rfl

theorem char_ne (l : Letter) : l.char ≠ '\n' ∧ l.char ≠ 'x' := by
  cases l <;> decide

end Letter

/-- A hexadecimal digit, in one of two cases. -/
structure HexDigit where
  value : Fin 16
  upper : Bool
deriving DecidableEq, Repr, Inhabited

namespace HexDigit

def lowerChars : List Char :=
  ['0', '1', '2', '3', '4', '5', '6', '7', '8', '9', 'a', 'b', 'c', 'd', 'e', 'f']

def char (d : HexDigit) : Char :=
  let c := lowerChars.get d.value
  if d.upper then c.toUpper else c

theorem hexDigit?_char (d : HexDigit) : Escape.hexDigit? d.char = some (.ofNat d.value) := by
  obtain ⟨value, upper⟩ := d
  revert value
  cases upper <;> decide

theorem char_ne (d : HexDigit) : d.char ≠ '"' ∧ d.char ≠ '\\' := by
  obtain ⟨value, upper⟩ := d
  revert value
  cases upper <;> decide

end HexDigit

/-- A piece of a string that stands for some bytes. -/
inductive Item where
  /-- A character that stands for itself. -/
  | plain (c : Char) (quote : c ≠ '"') (backslash : c ≠ '\\')
  | letter (l : Letter)
  /-- A byte by its two hexadecimal digits. -/
  | hex (high low : HexDigit)

namespace Item

/-- How an item is written. -/
def text : Item → List Char
  | plain c _ _ => [c]
  | letter l => ['\\', l.char]
  | hex high low => ['\\', 'x', high.char, low.char]

/-- What an item stands for. -/
def bytes : Item → List UInt8
  | plain c _ _ => String.utf8EncodeChar c
  | letter l => [l.byte]
  | hex high low => [.ofNat (16 * high.value + low.value)]

/-- The quote that closes a string is not looked for inside an item. -/
theorem cutClosed?_text (i : Item) {cs inside rest : List Char}
    (h : Lexeme.cutClosed? cs = some (inside, rest)) :
    Lexeme.cutClosed? (i.text ++ cs) = some (i.text ++ inside, rest) := by
  cases i with
  | plain c quote backslash => exact Lexeme.cutClosed?_plain quote backslash h
  | letter l => exact Lexeme.cutClosed?_pair l.char_ne.1 h
  | hex high low =>
    have hlow := Lexeme.cutClosed?_plain low.char_ne.1 low.char_ne.2 h
    have hhigh := Lexeme.cutClosed?_plain high.char_ne.1 high.char_ne.2 hlow
    exact Lexeme.cutClosed?_pair (by decide) hhigh

/-- A byte ends behind its second digit, also in front of a third. -/
theorem hexByte?_hex (high low : HexDigit) (cs : List Char) :
    Escape.hexByte? (high.char :: low.char :: cs) =
      some (.ofNat (16 * high.value + low.value), cs) := by
  rw [Escape.hexByte?, high.hexDigit?_char, low.hexDigit?_char, UInt8.ofNat_add, UInt8.ofNat_mul]
  rfl

theorem unescape_text (i : Item) (cs : List Char) :
    unescape (i.text ++ cs) = i.bytes ++ unescape cs := by
  cases i with
  | plain c quote backslash =>
    rw [text, List.cons_append, unescape]
    simp [Escape.item, backslash, bytes]
  | letter l =>
    rw [text, List.cons_append, List.cons_append, unescape]
    simp [Escape.item, l.char_ne.2, l.simple?_char, bytes]
  | hex high low =>
    rw [text, List.cons_append, List.cons_append, List.cons_append, List.cons_append, unescape]
    simp [Escape.item, hexByte?_hex, bytes]

end Item

/-- A row of items as it is written. -/
def text (items : List Item) : List Char :=
  items.flatMap Item.text

/-- What a row of items stands for. -/
def bytes (items : List Item) : List UInt8 :=
  items.flatMap Item.bytes

/-- The source that is nothing but a string. -/
def source (items : List Item) : List Char :=
  '"' :: (text items ++ ['"'])

theorem cutClosed?_text (items : List Item) (rest : List Char) :
    Lexeme.cutClosed? (text items ++ '"' :: rest) = some (text items ++ ['"'], rest) := by
  induction items with
  | nil => rfl
  | cons i items ih =>
    rw [text, List.flatMap_cons, List.append_assoc, List.append_assoc]
    exact i.cutClosed?_text ih

theorem unescape_text (items : List Item) : unescape (text items) = bytes items := by
  induction items with
  | nil => rw [text, List.flatMap_nil, unescape]; rfl
  | cons i items ih =>
    rw [text, List.flatMap_cons, i.unescape_text, ← text, ih]
    rfl

/-- The token of a string that stands at the start of a file. -/
def token (items : List Item) (file : String) : Token where
  kind := .string
  value := String.ofList (text items)
  span := ⟨.start file, .behind file (source items)⟩

/-- Whichever items are written between two quotes, they are one token from the first quote to the
last, and what its text denotes is what the items stand for, one after the other. -/
theorem tokenize_source_denotes (items : List Item) (file : String) :
    tokenize (String.ofList (source items)) file =
        .ok [token items file, .endAt (.behind file (source items))] ∧
      unescape (token items file).value.toList = bytes items := by
  have hfirst := Lexeme.first?_quoted (cutClosed?_text items [])
  have hpasses : Cursor.Passes file [] (source items) [] [token items file] := by
    have hvalue : (source items).tail.dropLast = text items := by simp [source]
    have hpiece : Cursor.Passes file [] (source items) [] _ :=
      .of_first? (x := ⟨.string, source items⟩) (by simpa [source] using hfirst)
    rwa [Lexeme.Class.token?, hvalue] at hpiece
  refine ⟨?_, ?_⟩
  · rw [tokenize, Cursor.ofText, String.toList_ofList]
    exact hpasses.scan_eq
  · rw [token, String.toList_ofList, unescape_text]

end Literal

end Chalk
