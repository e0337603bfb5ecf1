import Chalk.C.Stmt

/-!
An emitter collects lines of C, and counts the blocks that are open around the next one. It counts
in words of 64 bits, so the number goes around where it is not far from the greatest.
-/

namespace Chalk.C

structure Emitter where
  lines : List String
  depth : UInt64
deriving DecidableEq, Repr, Inhabited

namespace Emitter

/-- No lines, and no open block. -/
def empty : Emitter :=
  { lines := [], depth := 0 }

/-- Adds lines that are indented already. -/
def append (e : Emitter) (lines : List String) : Emitter :=
  { e with lines := e.lines ++ lines }

/-- Adds a line with four spaces for each open block in front, or an empty line. -/
def emit (e : Emitter) (line : String) : Emitter :=
  if line = "" then e.append [""]
  else e.append [String.ofList (List.replicate (e.depth * 4).toNat ' ') ++ line]

def indent (e : Emitter) : Emitter :=
  { e with depth := e.depth + 1 }

/-- Closes a block, if one is open. -/
def dedent (e : Emitter) : Emitter :=
  { e with depth := if e.depth = 0 then 0 else e.depth - 1 }

/-- Adds what `inside` adds, one block further in. -/
def nested (e : Emitter) (inside : Emitter → Emitter) : Emitter :=
  (inside e.indent).dedent

/-- Adds what `inside` adds as a block, with the line that opens it and the one that closes it. -/
def braced (e : Emitter) (header : String) (inside : Emitter → Emitter) : Emitter :=
  ((e.emit (header ++ " \x7b")).nested inside).emit "\x7d"

mutual

/-- Adds a statement. One without a body is the line that it is outside of all blocks. -/
def stmt (e : Emitter) : TypedStmt → Emitter
  | .branch condition thenBody elseBody _ =>
    let afterThen :=
      (e.emit ("if (" ++ condition.cText ++ ") \x7b")).nested (stmts · thenBody)
    let afterElse :=
      if elseBody.isEmpty then afterThen
      else (afterThen.emit "\x7d else \x7b").nested (stmts · elseBody)
    afterElse.emit "\x7d"
  | .loop condition body _ => e.braced ("while (" ++ condition.cText ++ ")") (stmts · body)
  | .function signature body _ => (e.braced (head signature) (stmts · body)).emit ""
  | simple => (simple.cLines 0).foldl emit e

/-- Adds statements, one behind the other. -/
def stmts (e : Emitter) : List TypedStmt → Emitter
  | [] => e
  | s :: rest => stmts (stmt e s) rest

end

/-- Adds statements, one block further in. -/
def body (e : Emitter) (statements : List TypedStmt) : Emitter :=
  e.nested (stmts · statements)

/-- Adds a block with a line that opens it. -/
def block (e : Emitter) (header : String) (statements : List TypedStmt) : Emitter :=
  e.braced header (stmts · statements)

@[simp] theorem append_nil (e : Emitter) : e.append [] = e := by
  simp [append]

@[simp] theorem append_append (e : Emitter) (ls ms : List String) :
    (e.append ls).append ms = e.append (ls ++ ms) := by
  simp [append]

@[simp] theorem depth_append (e : Emitter) (ls : List String) : (e.append ls).depth = e.depth :=
  rfl

/-- The text of the lines. -/
def text (e : Emitter) : String :=
  "\n".intercalate e.lines

end Emitter

end Chalk.C
