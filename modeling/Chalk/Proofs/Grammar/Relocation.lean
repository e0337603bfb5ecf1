import Chalk.Grammar.Program

/-!
# Parsing does not look at places

A relocation moves the places in a source, and with them tokens, trees and faults. What is read from
moved tokens is what is read from the tokens, moved (`parse_relocate`): a rule takes places from the
tokens it passes and puts them into trees and faults, but decides nothing by them. `Carries` says so
of a parser, `Parts.Moves` of the parsers for the parts of a grammar, and each rule carries over
when its parts do.
-/

namespace Chalk

/-- A way to move the places of a source. Places on one line go to one line. -/
structure Relocation where
  place : Position → Position
  line : UInt32 → UInt32
  line_place (p : Position) : (place p).line = line p.line

namespace Relocation

variable (m : Relocation)

def note : Line → Line :=
  Option.map m.line

def token (t : Token) : Token :=
  { t with span := ⟨m.place t.span.start, m.place t.span.stop⟩ }

def stream (s : Stream) : Stream :=
  { current := m.token s.current, later := s.later.map m.token }

def expr (e : ParsedExpr) : ParsedExpr :=
  e.map m.note

def stmt (s : ParsedStmt) : ParsedStmt :=
  s.map m.note m.note

def fault (e : SyntaxError) : SyntaxError :=
  { e with position := m.place e.position }

/-- The moved outcome of a parser, where `φ` moves the values. -/
def reply {α : Type} (φ : α → α) : Reply α → Reply α
  | .done a s => .done (φ a) (m.stream s)
  | .failed e s => .failed (m.fault e) (m.stream s)
  | .cut => .cut

theorem some_line_token (t : Token) : some (m.token t).line = m.note (some t.line) :=
  congrArg some (m.line_place t.span.start)

theorem stream_advance (s : Stream) : (m.stream s).advance = m.stream s.advance := by
  obtain ⟨current, later⟩ := s
  cases later <;> rfl

theorem nextKind_stream (s : Stream) : (m.stream s).nextKind = s.nextKind := by
  obtain ⟨current, later⟩ := s
  cases later <;> rfl

theorem note_expr (e : ParsedExpr) : (m.expr e).note = m.note e.note := by
  cases e <;> rfl

theorem expr_call (callee : String) (arguments : List ParsedExpr) (line : Line) :
    m.expr (.call callee arguments line) = .call callee (arguments.map m.expr) (m.note line) :=
  congrArg (Expr.call callee · (m.note line)) (Expr.mapList_eq m.note arguments)

theorem stmt_branch (condition : ParsedExpr) (thenBody elseBody : List ParsedStmt) (line : Line) :
    m.stmt (.branch condition thenBody elseBody line) =
      .branch (m.expr condition) (thenBody.map m.stmt) (elseBody.map m.stmt) (m.note line) := by
  rw [stmt, Stmt.map, Stmt.mapList_eq, Stmt.mapList_eq]
  rfl

theorem stmt_loop (condition : ParsedExpr) (body : List ParsedStmt) (line : Line) :
    m.stmt (.loop condition body line) =
      .loop (m.expr condition) (body.map m.stmt) (m.note line) := by
  rw [stmt, Stmt.map, Stmt.mapList_eq]
  rfl

theorem stmt_function (signature : Signature) (body : List ParsedStmt) (line : Line) :
    m.stmt (.function signature body line) =
      .function signature (body.map m.stmt) (m.note line) := by
  rw [stmt, Stmt.map, Stmt.mapList_eq]
  rfl

/-- On moved tokens the parser `q` reads what `p` reads on the tokens, moved. -/
def Carries {α : Type} (φ : α → α) (p q : Parser α) : Prop :=
  ∀ s, q (m.stream s) = m.reply φ (p s)

variable {m}

namespace Carries

variable {α β : Type} {φ : α → α} {ψ : β → β}

theorem bind {p q : Parser α} {f g : α → Parser β} (h : m.Carries φ p q)
    (hf : ∀ a, m.Carries ψ (f a) (g (φ a))) : m.Carries ψ (p >>= f) (q >>= g) := by
  intro s
  rw [Parser.bind_apply, Parser.bind_apply, h s]
  cases p s with
  | done a s' => exact hf a s'
  | failed e s' => rfl
  | cut => rfl

theorem pure {a b : α} (h : b = φ a) : m.Carries φ (Pure.pure a) (Pure.pure b) := by
  rintro s
  rw [h]
  rfl

theorem ite {c : Prop} [Decidable c] {p q p' q' : Parser α} (h : m.Carries φ p q)
    (h' : m.Carries φ p' q') : m.Carries φ (if c then p else p') (if c then q else q') := by
  split
  · exact h
  · exact h'

theorem kind_bind {f g : Token.Kind → Parser β} (h : ∀ k, m.Carries ψ (f k) (g k)) :
    m.Carries ψ (Parser.kind >>= f) (Parser.kind >>= g) := fun s => h s.kind s

theorem advance : m.Carries m.token Parser.advance Parser.advance := by
  intro s
  rw [Parser.advance, stream_advance]
  rfl

theorem failAt (t : Token) (cause : SyntaxError.Cause) :
    m.Carries φ (Parser.failAt t cause) (Parser.failAt (m.token t) cause) := fun _ => rfl

theorem unexpected : m.Carries φ Parser.unexpected Parser.unexpected := fun _ => rfl

theorem unexpectedHere (wanted : String) :
    m.Carries φ (Parser.unexpectedHere wanted) (Parser.unexpectedHere wanted) := fun _ => rfl

theorem expect (kind : Token.Kind) :
    m.Carries m.token (Parser.expect kind) (Parser.expect kind) := by
  intro s
  show (if s.kind = kind then _ else _) = _
  unfold Parser.expect
  split
  · exact advance s
  · exact unexpected s

theorem expectHere (kind : Token.Kind) (wanted : String) :
    m.Carries m.token (Parser.expectHere kind wanted) (Parser.expectHere kind wanted) := by
  intro s
  show (if s.kind = kind then _ else _) = _
  unfold Parser.expectHere
  split
  · exact advance s
  · exact unexpectedHere wanted s

theorem ty : m.Carries id Parser.ty Parser.ty := by
  refine (expectHere _ _).bind fun t => ?_
  dsimp only [token]
  cases Ty.ofName? t.value with
  | some ty => exact .pure rfl
  | none => exact .failAt t _

end Carries

end Relocation

open Chalk.Parser Relocation

namespace Parts

/-- Parsers for parts that carry over to moved tokens. -/
structure Moves (m : Relocation) (P : Parts) : Prop where
  expr (power : Power) : m.Carries m.expr (P.expr power) (P.expr power)
  tail (power : Power) (left : ParsedExpr) :
    m.Carries m.expr (P.tail power left) (P.tail power (m.expr left))
  arguments : m.Carries (List.map m.expr) P.arguments P.arguments
  params : m.Carries id P.params P.params
  stmt : m.Carries m.stmt P.stmt P.stmt
  branch : m.Carries m.stmt P.branch P.branch
  body : m.Carries (List.map m.stmt) P.body P.body
  program : m.Carries (List.map m.stmt) P.program P.program

namespace Moves

variable {m : Relocation} {P : Parts}

/-! ## Expressions -/

theorem primaryRule : m.Carries m.expr Parts.primaryRule Parts.primaryRule := by
  refine Carries.advance.bind fun t => ?_
  have hline := m.some_line_token t
  obtain ⟨kind, value, span⟩ := t
  cases kind with
  | number =>
    dsimp only [token]
    cases Number.read? value with
    | some number => exact .pure (congrArg (Expr.number number) hline)
    | none => exact .failAt _ _
  | identifier => exact .pure (congrArg (Expr.var value) hline)
  | string => exact .pure (congrArg (Expr.string _) hline)
  | keyword k =>
    cases k with
    | trueKw => exact .pure (congrArg (Expr.bool true) hline)
    | falseKw => exact .pure (congrArg (Expr.bool false) hline)
    | _ => exact .failAt _ _
  | _ => exact .failAt _ _

theorem negationRule (h : P.Moves m) : m.Carries m.expr P.negationRule P.negationRule := by
  refine Carries.advance.bind fun t => (h.expr _).bind fun operand => .pure ?_
  rw [m.some_line_token]
  rfl

theorem groupRule (h : P.Moves m) : m.Carries m.expr P.groupRule P.groupRule :=
  Carries.advance.bind fun _ => (h.expr _).bind fun _ => (Carries.expectHere _ _).bind fun _ =>
    .pure rfl

theorem headRule (h : P.Moves m) (rule : HeadRule) :
    m.Carries m.expr (P.headRule rule) (P.headRule rule) := by
  cases rule with
  | primary => exact primaryRule
  | negation => exact h.negationRule
  | group => exact h.groupRule

theorem binaryRule (h : P.Moves m) (left : ParsedExpr) (power : Power) :
    m.Carries m.expr (P.binaryRule left power) (P.binaryRule (m.expr left) power) := by
  refine Carries.advance.bind fun t => ?_
  dsimp only [token]
  cases Operator.ofKind? t.kind with
  | none => exact .failAt t _
  | some operator =>
    refine (h.expr _).bind fun right => .pure ?_
    rw [m.note_expr]
    rfl

theorem callRule (h : P.Moves m) (left : ParsedExpr) :
    m.Carries m.expr (P.callRule left) (P.callRule (m.expr left)) := by
  cases left with
  | var callee line =>
    exact Carries.advance.bind fun _ => h.arguments.bind fun arguments =>
      .pure (m.expr_call callee arguments line).symm
  | number | string | bool | negate | binary | call => exact .unexpectedHere _

theorem tailRule (h : P.Moves m) (left : ParsedExpr) (power : Power) (rule : TailRule) :
    m.Carries m.expr (P.tailRule left power rule) (P.tailRule (m.expr left) power rule) := by
  cases rule with
  | binary => exact h.binaryRule left power
  | call => exact h.callRule left

theorem exprRule (h : P.Moves m) (g : Grammar) (power : Power) :
    m.Carries m.expr (P.exprRule g power) (P.exprRule g power) := by
  refine .kind_bind fun k => ?_
  cases g.head k with
  | none => exact .unexpected
  | some rule => exact (h.headRule rule).bind fun left => h.tail power left

theorem tailsRule (h : P.Moves m) (g : Grammar) (power : Power) (left : ParsedExpr) :
    m.Carries m.expr (P.tailsRule g power left) (P.tailsRule g power (m.expr left)) := by
  refine .kind_bind fun k => ?_
  cases g.tail k with
  | none => exact .pure rfl
  | some entry =>
    exact .ite ((h.tailRule left _ _).bind fun left' => h.tail power left') (.pure rfl)

/-- A comma or the end of a list carries over, and so does the rest of the list. -/
theorem separated {α : Type} {φ : α → α} {list : Parser (List α)}
    (h : m.Carries (List.map φ) list list) (wanted : String) (a : α) :
    m.Carries (List.map φ)
      (do
        if (← kind) ≠ .sign .closeParen then
          let _ ← Parser.expectHere (.sign .comma) wanted
        let rest ← list
        Pure.pure (a :: rest))
      (do
        if (← kind) ≠ .sign .closeParen then
          let _ ← Parser.expectHere (.sign .comma) wanted
        let rest ← list
        Pure.pure (φ a :: rest)) := by
  have hrest : m.Carries (List.map φ) (do let rest ← list; Pure.pure (a :: rest))
      (do let rest ← list; Pure.pure (φ a :: rest)) := h.bind fun _ => .pure rfl
  exact .kind_bind fun _ => .ite ((Carries.expectHere _ _).bind fun _ => hrest) hrest

theorem argumentsRule (h : P.Moves m) :
    m.Carries (List.map m.expr) P.argumentsRule P.argumentsRule :=
  .kind_bind fun _ => .ite (Carries.advance.bind fun _ => .pure rfl) <|
    (h.expr _).bind fun first => separated h.arguments _ first

/-! ## Statements -/

theorem paramsRule (h : P.Moves m) : m.Carries id P.paramsRule P.paramsRule := by
  have hparams : m.Carries (List.map id) P.params P.params := by
    rw [List.map_id_fun]
    exact h.params
  rw [← List.map_id_fun]
  exact .kind_bind fun _ => .ite (Carries.advance.bind fun _ => .pure rfl) <|
    (Carries.expectHere _ _).bind fun name => (Carries.expectHere _ _).bind fun _ =>
      Carries.ty.bind fun ty => separated hparams _ (name.value, ty)

theorem bodyRule (h : P.Moves m) : m.Carries (List.map m.stmt) P.bodyRule P.bodyRule := by
  refine .kind_bind fun k => ?_
  split
  · exact Carries.advance.bind fun _ => .pure rfl
  · exact .unexpectedHere _
  · exact h.stmt.bind fun _ => h.body.bind fun _ => .pure rfl

theorem blockRule (h : P.Moves m) : m.Carries (List.map m.stmt) P.blockRule P.blockRule :=
  (Carries.expectHere _ _).bind fun _ => h.body

theorem declarationRule (h : P.Moves m) :
    m.Carries m.stmt P.declarationRule P.declarationRule := by
  refine Carries.advance.bind fun t => (Carries.expectHere _ _).bind fun name =>
    (Carries.expectHere _ _).bind fun _ => Carries.ty.bind fun ty =>
      (Carries.expectHere _ _).bind fun _ => (h.expr _).bind fun value =>
        (Carries.expect _).bind fun _ => .pure ?_
  rw [m.some_line_token]
  rfl

theorem assignmentRule (h : P.Moves m) : m.Carries m.stmt P.assignmentRule P.assignmentRule := by
  refine (Carries.expect _).bind fun target => (Carries.expect _).bind fun _ =>
    (h.expr _).bind fun value => (Carries.expect _).bind fun _ => .pure ?_
  rw [m.some_line_token]
  rfl

theorem elseRule (h : P.Moves m) : m.Carries (List.map m.stmt) P.elseRule P.elseRule :=
  .kind_bind fun _ => .ite
    (Carries.advance.bind fun _ => .kind_bind fun _ =>
      .ite (h.branch.bind fun _ => .pure rfl) h.blockRule)
    (.pure rfl)

theorem branchRule (h : P.Moves m) : m.Carries m.stmt P.branchRule P.branchRule := by
  refine Carries.advance.bind fun t => (h.expr _).bind fun condition =>
    h.blockRule.bind fun thenBody => h.elseRule.bind fun elseBody => .pure ?_
  rw [m.some_line_token, m.stmt_branch]

theorem loopRule (h : P.Moves m) : m.Carries m.stmt P.loopRule P.loopRule := by
  refine Carries.advance.bind fun t => (h.expr _).bind fun condition =>
    h.blockRule.bind fun body => .pure ?_
  rw [m.some_line_token, m.stmt_loop]

theorem returnsRule : m.Carries id Parts.returnsRule Parts.returnsRule :=
  .kind_bind fun _ => .ite (Carries.advance.bind fun _ => Carries.ty) (.pure rfl)

theorem functionRule (h : P.Moves m) : m.Carries m.stmt P.functionRule P.functionRule := by
  refine Carries.advance.bind fun t => (Carries.expectHere _ _).bind fun name =>
    (Carries.expect _).bind fun _ => h.params.bind fun params =>
      returnsRule.bind fun returns => h.blockRule.bind fun body => .pure ?_
  rw [m.some_line_token, m.stmt_function]
  rfl

theorem retRule (h : P.Moves m) : m.Carries m.stmt P.retRule P.retRule := by
  refine Carries.advance.bind fun t => .kind_bind fun _ => .ite ?_ ?_
  · refine Carries.advance.bind fun _ => .pure ?_
    rw [m.some_line_token]
    rfl
  · refine (h.expr _).bind fun value => (Carries.expect _).bind fun _ => .pure ?_
    rw [m.some_line_token]
    rfl

theorem printRule (h : P.Moves m) : m.Carries m.stmt P.printRule P.printRule := by
  refine Carries.advance.bind fun t => (Carries.expectHere _ _).bind fun _ =>
    .kind_bind fun _ => .ite (.unexpectedHere _) ?_
  refine h.arguments.bind fun values => (Carries.expect _).bind fun _ => .pure ?_
  rw [m.some_line_token]
  rfl

theorem exprStmtRule (h : P.Moves m) : m.Carries m.stmt P.exprStmtRule P.exprStmtRule := by
  have hline : m.Carries m.note line line := fun s =>
    congrArg (Reply.done · (m.stream s)) (m.some_line_token s.current)
  exact hline.bind fun _ => (h.expr _).bind fun _ => (Carries.expect _).bind fun _ => .pure rfl

theorem stmtRule (h : P.Moves m) (rule : StmtRule) :
    m.Carries m.stmt (P.stmtRule rule) (P.stmtRule rule) := by
  cases rule with
  | any => exact h.stmt
  | declaration => exact h.declarationRule
  | assignment => exact h.assignmentRule
  | branch => exact h.branchRule
  | loop => exact h.loopRule
  | function => exact h.functionRule
  | ret => exact h.retRule
  | print => exact h.printRule

theorem anyStmtRule (h : P.Moves m) (g : Grammar) :
    m.Carries m.stmt (P.anyStmtRule g) (P.anyStmtRule g) := by
  have hnext : m.Carries id nextKind nextKind := fun s =>
    congrArg (Reply.done · (m.stream s)) (m.nextKind_stream s)
  refine .kind_bind fun k => ?_
  cases g.stmt k with
  | some rule => exact h.stmtRule rule
  | none => exact hnext.bind fun _ => .ite h.assignmentRule h.exprStmtRule

theorem programRule (h : P.Moves m) : m.Carries (List.map m.stmt) P.programRule P.programRule :=
  .kind_bind fun _ => .ite (.pure rfl) (h.stmt.bind fun _ => h.program.bind fun _ => .pure rfl)

end Moves

end Parts

/-! ## Programs -/

theorem Grammar.parts_moves (m : Relocation) (g : Grammar) (depth : Nat) :
    (g.parts depth).Moves m := by
  induction depth with
  | zero =>
    constructor
    all_goals
      intros
      exact fun _ => rfl
  | succ depth ih =>
    exact ⟨ih.exprRule g, ih.tailsRule g, ih.argumentsRule, ih.paramsRule, ih.anyStmtRule g,
      ih.branchRule, ih.bodyRule, ih.programRule⟩

theorem Stream.program_relocate (m : Relocation) (s : Stream) :
    (m.stream s).program = m.reply (List.map m.stmt) s.program := by
  have hdepth : Grammar.depthFor (m.stream s) = Grammar.depthFor s := by
    simp [Grammar.depthFor, Relocation.stream]
  rw [Stream.program, Grammar.read, hdepth]
  exact (Grammar.parts_moves m .chalk _).program s

theorem Stream.ofTokens_relocate (m : Relocation) (t : Token) (ts : List Token)
    (file file' : String) :
    Stream.ofTokens ((t :: ts).map m.token) file' = m.stream (Stream.ofTokens (t :: ts) file) := by
  have hlast : (ts.map m.token).getLastD (m.token t) = m.token (ts.getLastD t) := by
    rw [List.getLastD_eq_getLast?, List.getLastD_eq_getLast?, List.getLast?_map, Option.getD_map]
  simp only [Stream.ofTokens, List.map_cons, Relocation.stream, hlast]
  congr 1
  by_cases hend : (ts.getLastD t).kind = .eof
  · rw [if_pos hend, if_pos (show (m.token _).kind = .eof from hend)]
  · rw [if_neg hend, if_neg (show ¬ (m.token _).kind = .eof from hend), List.map_append]
    rfl

/-- What moved tokens make up is what the tokens make up, moved. -/
theorem parse_relocate (m : Relocation) (ts : List Token) (file file' : String) :
    parse (ts.map m.token) file' = ((parse ts file).map (List.map m.stmt)).mapError m.fault := by
  cases ts with
  | nil => rfl
  | cons t ts =>
    simp only [parse, Stream.ofTokens_relocate m t ts file, Stream.program_relocate]
    cases (Stream.ofTokens (t :: ts) file).program with
    | done p s => rfl
    | failed e s => rfl
    | cut => rfl

end Chalk
