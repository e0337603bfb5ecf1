import Chalk.Diagnostic.Syntactic
import Chalk.Token.Cursor
import Chalk.Token.Lexeme

/-!
Cutting a source text into tokens. At each place the first lexeme class with a piece there gives the
next token, or is passed over if it is a blank or a comment; the list ends with the token for the
end of the text. A character at which no class has a piece is a fault. The cursor goes over a piece
by a number of bytes, and comes behind it (`Cursor.advance?_of_first?`).
-/

namespace Chalk

namespace Cursor

theorem advance?_of_first? {c : Cursor} {x : Lexeme} {rest : List Char}
    (h : Lexeme.first? c.rest = some (x, rest)) :
    c.advance? (x.cls.stride x.text) = some (c.after x.text rest) := by
  have hstride := Lexeme.Class.stride_of_cut? (Lexeme.cut?_of_first? h)
  rw [advance?, hstride, ← Lexeme.append_of_first? h, Text.splitAtByte?_utf8Length]
  rfl

/-- The cursor as many bytes further on as it takes to go over the first piece. -/
def pass (c : Cursor) {x : Lexeme} {rest : List Char}
    (h : Lexeme.first? c.rest = some (x, rest)) : Cursor :=
  (c.advance? (x.cls.stride x.text)).get (Option.isSome_of_eq_some (advance?_of_first? h))

theorem pass_eq {c : Cursor} {x : Lexeme} {rest : List Char}
    (h : Lexeme.first? c.rest = some (x, rest)) : c.pass h = c.after x.text rest :=
  Option.get_of_eq_some _ (advance?_of_first? h)

/-- The stretch of a piece between two cursors. A string can go over lines, and all else that is a
token lies on one. -/
def spanOf (c : Cursor) (x : Lexeme) (next : Cursor) : Span :=
  match x.cls with
  | .string => ⟨c.position, next.position⟩
  | _ => c.span (x.cls.stride x.text)

/-- The tokens from the cursor on. -/
def scan (c : Cursor) : Except SyntaxError (List Token) :=
  match c.rest with
  | [] => .ok [Token.endAt c.position]
  | char :: _ =>
    match h : Lexeme.first? c.rest with
    | none => .error { cause := .unrecognised (String.ofList [char]), position := c.position }
    | some (lexeme, rest) =>
      let next := c.pass h
      have : next.rest.length < c.rest.length := by
        rw [show next = c.after lexeme.text rest from pass_eq h]
        exact Lexeme.length_lt_of_first? h
      match scan next with
      | .error e => .error e
      | .ok tokens =>
        .ok ((lexeme.cls.token? lexeme.text (c.spanOf lexeme next)).toList ++ tokens)
termination_by c.rest.length

end Cursor

/-- The name that stands for the file of a text that comes from none. -/
def defaultFile : String :=
  "shell"

/-- The tokens of a source text. -/
def tokenize (source : String) (file : String) : Except SyntaxError (List Token) :=
  (Cursor.ofText source file).scan

end Chalk
