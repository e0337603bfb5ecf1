import Chalk.C.Emitter

/-!
Programs in C: the functions of the program in order, then, if there are other statements, a `main`
that runs them.
-/

namespace Chalk.C

/-- The lines before the program itself. -/
def preamble : List String :=
  ["#include <stdio.h>", "#include <string.h>", ""]

/-- The lines of the function that runs statements. -/
def mainLines (statements : List TypedStmt) : List String :=
  "int main() \x7b" :: Stmt.cBody 1 statements ++ [indented 1 "return 0;", "\x7d"]

/-- The lines of a program. -/
def programLines (program : List TypedStmt) : List String :=
  let (functions, statements) := program.partition Stmt.isFunction
  let main := if statements.isEmpty then [] else mainLines statements
  preamble ++ Stmt.cBody 0 functions ++ main

/-- Adds a program, line by line. -/
def Emitter.program (e : Emitter) (program : List TypedStmt) : Emitter :=
  let (functions, statements) := program.partition Stmt.isFunction
  let e := (preamble.foldl emit e).stmts functions
  if statements.isEmpty then e
  else e.braced "int main()" fun inside => (inside.stmts statements).emit "return 0;"

/-- The C text of a program. -/
def generate (program : List TypedStmt) : String :=
  "\n".intercalate (programLines program)

end Chalk.C
