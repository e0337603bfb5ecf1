import Chalk.Token.Basic

/-!
A stream is a list of tokens seen from one place in it: the current token and those after it. There
is always a current token, since the last one, the end of the text, is never passed.
-/

namespace Chalk

structure Stream where
  current : Token
  later : List Token
deriving DecidableEq, Repr, Inhabited

namespace Stream

/-- The tokens with an end token behind them, unless the last one is that already. Without any
token the end stands at the start of the file. -/
def ofTokens (tokens : List Token) (file : String) : Stream :=
  match tokens with
  | [] => { current := .endAt (.start file), later := [] }
  | t :: ts =>
    let last := ts.getLastD t
    { current := t
      later := if last.kind = .eof then ts else ts ++ [.endAt last.span.stop] }

/-- The kind of the current token. -/
def kind (s : Stream) : Token.Kind :=
  s.current.kind

/-- The place where the current token begins. -/
def position (s : Stream) : Position :=
  s.current.span.start

/-- The kind of the token after the current one. -/
def nextKind (s : Stream) : Token.Kind :=
  match s.later with
  | [] => .eof
  | t :: _ => t.kind

/-- The stream one token further on. -/
def advance (s : Stream) : Stream :=
  match s.later with
  | [] => s
  | t :: ts => { current := t, later := ts }

end Stream

end Chalk
