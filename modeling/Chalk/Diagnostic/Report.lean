import Chalk.Diagnostic.Semantic
import Chalk.Diagnostic.Syntactic
import Chalk.Text.Blank
import Chalk.Text.Lines

/-!
Reports on faults. A report gives the line, the message and the advice, and shows the line of the
source if there is one of that number.
-/

namespace Chalk

/-- A fault of form or of meaning. -/
inductive CompileError where
  | syntactic (e : SyntaxError)
  | semantic (e : SemanticError)
deriving DecidableEq, Repr, Inhabited

namespace CompileError

def name : CompileError → String
  | syntactic e => e.cause.name
  | semantic e => e.cause.name

def message : CompileError → String
  | syntactic e => e.cause.message
  | semantic e => e.cause.message

def tip? : CompileError → Option String
  | syntactic e => e.cause.tip?
  | semantic e => e.cause.tip?

def line : CompileError → Line
  | syntactic e => some e.position.line
  | semantic e => e.line

end CompileError

/-- The text of a line of a source, without its end. -/
def sourceLine? (source : String) (line : UInt32) : Option String :=
  (Text.line? source.toList line.toNat).map String.ofList

namespace CompileError

/-- A line of the source between two rules. -/
def snippet (line : UInt32) (text : String) : String :=
  let number := line.toNat.repr
  let rule := String.ofList (List.replicate (number.length + 1) ' ') ++ "|"
  "\n" ++ rule ++ "\n" ++ number ++ " | " ++ String.ofList (Text.trim text.toList) ++ "\n" ++ rule

/-- The report on a fault in a source. -/
def report (e : CompileError) (source : String) : String :=
  let place :=
    match e.line with
    | some line => "[line #" ++ line.toNat.repr ++ "]: "
    | none => ""
  let help :=
    match e.tip? with
    | some tip => "\nhelp: " ++ tip
    | none => ""
  let shown :=
    match e.line with
    | some line =>
      match sourceLine? source line with
      | some text => snippet line text
      | none => ""
    | none => ""
  "* " ++ place ++ e.message ++ help ++ shown

end CompileError

end Chalk
