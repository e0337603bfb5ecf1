import Chalk.Diagnostic.Syntactic
import Chalk.Grammar.Stream
import Chalk.Tree.Stmt

/-!
Parsers read a value from a stream. A parser that fails says where it stopped, as one that succeeds
does. A third outcome stands for a run that was cut short because the depth allowed to it was used
up.
-/

namespace Chalk

/-- The outcome of a parser. -/
inductive Reply (α : Type) where
  /-- A value was read, and the stream goes on there. -/
  | done (value : α) (rest : Stream)
  /-- A fault was found after the stream had come this far. -/
  | failed (error : SyntaxError) (rest : Stream)
  /-- The run was cut short. -/
  | cut
deriving Repr, Inhabited

/-- A reader of values from a stream. -/
def Parser (α : Type) : Type :=
  Stream → Reply α

/-- Goes on with a parser where a value was read. -/
def Reply.andThen {α β : Type} (r : Reply α) (f : α → Parser β) : Reply β :=
  match r with
  | .done a rest => f a rest
  | .failed e rest => .failed e rest
  | .cut => .cut

namespace Parser

variable {α β : Type}

/-- Runs a parser and then, where it ends, the parser that its value gives. -/
def andThen (p : Parser α) (f : α → Parser β) : Parser β := fun s =>
  (p s).andThen f

instance : Monad Parser where
  pure a := fun s => .done a s
  bind := andThen

theorem pure_apply (a : α) (s : Stream) : (pure a : Parser α) s = .done a s := rfl

theorem bind_apply (p : Parser α) (f : α → Parser β) (s : Stream) :
    (p >>= f) s =
      match p s with
      | .done a rest => f a rest
      | .failed e rest => .failed e rest
      | .cut => .cut := rfl

/-- The parser that is cut short at once. -/
def stopped : Parser α := fun _ => .cut

/-- The kind of the current token. -/
def kind : Parser Token.Kind := fun s => .done s.kind s

/-- The kind of the token after the current one. -/
def nextKind : Parser Token.Kind := fun s => .done s.nextKind s

/-- The line of the current token. -/
def line : Parser Line := fun s => .done (some s.current.line) s

/-- Passes the current token and gives it. -/
def advance : Parser Token := fun s => .done s.current s.advance

/-- Fails for a reason found in a token that may be passed already. -/
def failAt (t : Token) (cause : SyntaxError.Cause) : Parser α := fun s =>
  .failed { cause, position := t.span.start } s

/-- Fails because the current token cannot stand here. -/
def unexpected : Parser α := fun s =>
  failAt s.current (.unexpected s.current.value) s

/-- Fails because the current token cannot stand here, with a note on what was wanted. -/
def unexpectedHere (wanted : String) : Parser α := fun s =>
  failAt s.current (.unexpectedHere s.current.value wanted) s

/-- Passes a token of the given kind. -/
def expect (kind : Token.Kind) : Parser Token := fun s =>
  if s.kind = kind then advance s else unexpected s

/-- Passes a token of the given kind, with a note on what was wanted if there is none. -/
def expectHere (kind : Token.Kind) (wanted : String) : Parser Token := fun s =>
  if s.kind = kind then advance s else unexpectedHere wanted s

/-- Reads the name of a type. -/
def ty : Parser Ty := do
  let t ← expectHere .identifier "expected a type name"
  match Ty.ofName? t.value with
  | some ty => pure ty
  | none => failAt t (.unknownType t.value)

end Parser

end Chalk
