import Chalk.C.Program
import Chalk.Diagnostic.Report
import Chalk.Grammar.Program
import Chalk.Token.Scan
import Chalk.Typing.Stmt

/-!
From a source text to C: cut into tokens, read as a program, checked, and written out. The first
fault ends the way.
-/

namespace Chalk

/-- The program that a source text makes up. -/
def readProgram (source : String) (file : String) : Except SyntaxError Program := do
  let tokens ← tokenize source file
  parse tokens file

/-- The C text of a program, if it is free of faults of meaning. -/
def compileProgram (program : Program) : Except SemanticError String := do
  let typed ← typeCheck program
  pure (C.generate typed)

/-- The C text of a source text. -/
def compile (source : String) (file : String) : Except CompileError String := do
  let program ← (readProgram source file).mapError .syntactic
  (compileProgram program).mapError .semantic

end Chalk
