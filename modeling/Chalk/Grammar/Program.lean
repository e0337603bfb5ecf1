import Chalk.Grammar.Rules

/-!
Reading programs. `Grammar.parts` ties the knot of the rules to a given depth of nesting, beyond
which a run is cut short. Under the grammar of the language every rule passes a token before it
starts itself again, so a depth in proportion to the tokens that are left is enough, and that is the
depth which the parsers below take.
-/

namespace Chalk

namespace Grammar

/-- The parsers for the parts of a grammar, nested to the given depth. -/
def parts (g : Grammar) : Nat → Parts
  | 0 =>
    { expr := fun _ => .stopped
      tail := fun _ _ => .stopped
      arguments := .stopped
      params := .stopped
      stmt := .stopped
      branch := .stopped
      body := .stopped
      program := .stopped }
  | depth + 1 =>
    let inner := g.parts depth
    { expr := inner.exprRule g
      tail := inner.tailsRule g
      arguments := inner.argumentsRule
      params := inner.paramsRule
      stmt := inner.anyStmtRule g
      branch := inner.branchRule
      body := inner.bodyRule
      program := inner.programRule }

/-- A depth that is enough for the tokens of a stream. -/
def depthFor (s : Stream) : Nat :=
  4 * s.later.length + 8

/-- Runs a rule with parts of the depth that the stream asks for. -/
def read {α : Type} (g : Grammar) (rule : Parts → Parser α) : Parser α := fun s =>
  rule (g.parts (depthFor s)) s

end Grammar

/-- A program, as it is read from a source. -/
abbrev Program := List ParsedStmt

/-- Reads all tokens of a stream as a program. -/
def Stream.program (s : Stream) : Reply Program :=
  Grammar.chalk.read (·.program) s

/-- The program that a list of tokens makes up. The run is never cut short; if it were, the first
token would be at fault. -/
def parse (tokens : List Token) (file : String) : Except SyntaxError Program :=
  let s := Stream.ofTokens tokens file
  match s.program with
  | .done program _ => .ok program
  | .failed error _ => .error error
  | .cut => .error { cause := .unexpected s.current.value, position := s.position }

end Chalk
