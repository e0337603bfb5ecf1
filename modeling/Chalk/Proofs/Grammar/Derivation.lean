import Chalk.Grammar.Program

/-!
# The grammar as a relation

`Derives reads φ ts` says that the tokens `ts` make up the phrase `φ`, where a phrase is one of the
notions of the grammar with the tree that is built for it. The notions are

    program = stmt*
    stmt    = ('let' | 'mut') ID ':' TYPE '=' expr ';' | ID '=' expr ';' | if
            | 'while' expr block | 'fn' ID '(' params ')' ['->' TYPE] block
            | 'return' [expr] ';' | 'print' '(' arguments ')' ';' | expr ';'
    if      = 'if' expr block ['else' (if | block)]
    block   = '{' stmt* '}'
    expr    = chains of comparisons over chains of + and - over chains of * and / over unary
    unary   = '-' unary | atom | callee '(' arguments ')'
    atom    = NUMBER | STRING | ID | 'true' | 'false' | '(' expr ')'
    callee  = ID | '(' callee ')'

with commas between parameters and arguments and leave to write one behind the last. A chain grows
to the right, so its operators group from the left. The relation knows nothing of tables, powers
asked for, or depths; how the text of a number is read is left to the parameter `reads`.
-/

namespace Chalk

namespace Operator

/-- The sign by which an operator is written. -/
def sign : Operator → Sign
  | add => .plus
  | subtract => .dash
  | multiply => .star
  | divide => .slash
  | equals => .equals
  | notEquals => .notEquals
  | less => .less
  | greater => .greater
  | lessEquals => .lessEquals
  | greaterEquals => .greaterEquals

@[simp] theorem sign_ne_assignment (op : Operator) : op.sign ≠ .assignment := by
  cases op <;> decide

/-- How tightly an operator holds its operands. -/
def power : Operator → Power
  | multiply | divide => .multiplicative
  | add | subtract => .additive
  | equals | notEquals | less | greater | lessEquals | greaterEquals => .relational

theorem power_cases (op : Operator) :
    op.power = .relational ∨ op.power = .additive ∨ op.power = .multiplicative := by
  cases op <;> simp [power]

end Operator

namespace Token

/-- Whether a token is the name of a type. -/
def IsType (t : Token) (ty : Ty) : Prop :=
  t.kind = .identifier ∧ t.value = ty.name

end Token

/-- The notions of the grammar, each with the tree that is built for it. -/
inductive Phrase where
  /-- Operators of one power, grouped from the left. -/
  | chain (power : Power) (e : ParsedExpr)
  | unary (e : ParsedExpr)
  | atom (e : ParsedExpr)
  /-- A name in any number of parentheses. -/
  | callee (name : String) (line : Line)
  | arguments (es : List ParsedExpr)
  | params (ps : List (String × Ty))
  /-- The result type of a function, if it is written. -/
  | returns (ty : Ty)
  | stmt (s : ParsedStmt)
  | branch (s : ParsedStmt)
  /-- What stands behind a conditional body, if anything does. -/
  | otherwise (body : List ParsedStmt)
  | block (body : List ParsedStmt)
  | stmts (body : List ParsedStmt)

namespace Phrase

/-- The operands of operators of a power, which hold together more tightly. -/
def operand : Power → ParsedExpr → Phrase
  | .default, e => chain .relational e
  | .relational, e => chain .additive e
  | .additive, e => chain .multiplicative e
  | .multiplicative, e | .unary, e | .call, e => unary e

/-- Any expression. -/
def expr (e : ParsedExpr) : Phrase :=
  operand .default e

end Phrase

/-- The tokens that make up a phrase. -/
inductive Derives (reads : String → Number → Prop) : Phrase → List Token → Prop
  | number {t : Token} {v : Number} (kind : t.kind = .number) (value : reads t.value v) :
      Derives reads (.atom (.number v (some t.line))) [t]
  | string {t : Token} (kind : t.kind = .string) :
      Derives reads (.atom (.string (unescape t.value.toList) (some t.line))) [t]
  | bool {t : Token} {b : Bool} (kind : t.kind = .keyword (if b then .trueKw else .falseKw)) :
      Derives reads (.atom (.bool b (some t.line))) [t]
  | var {t : Token} (kind : t.kind = .identifier) :
      Derives reads (.atom (.var t.value (some t.line))) [t]
  | group {o c : Token} {e : ParsedExpr} {ts : List Token} (opens : o.kind = .sign .openParen)
      (inside : Derives reads (.expr e) ts) (closes : c.kind = .sign .closeParen) :
      Derives reads (.atom e) (o :: (ts ++ [c]))
  | name {t : Token} (kind : t.kind = .identifier) :
      Derives reads (.callee t.value (some t.line)) [t]
  | parens {o c : Token} {f : String} {line : Line} {ts : List Token}
      (opens : o.kind = .sign .openParen) (inside : Derives reads (.callee f line) ts)
      (closes : c.kind = .sign .closeParen) :
      Derives reads (.callee f line) (o :: (ts ++ [c]))
  | negate {t : Token} {e : ParsedExpr} {ts : List Token} (kind : t.kind = .sign .dash)
      (operand : Derives reads (.unary e) ts) :
      Derives reads (.unary (.negate e (some t.line))) (t :: ts)
  | ofAtom {e : ParsedExpr} {ts : List Token} (h : Derives reads (.atom e) ts) :
      Derives reads (.unary e) ts
  | call {o c : Token} {f : String} {line : Line} {es : List ParsedExpr} {fs ts : List Token}
      (callee : Derives reads (.callee f line) fs) (opens : o.kind = .sign .openParen)
      (arguments : Derives reads (.arguments es) ts) (closes : c.kind = .sign .closeParen) :
      Derives reads (.unary (.call f es line)) (fs ++ o :: (ts ++ [c]))
  | ofOperand {p : Power} {e : ParsedExpr} {ts : List Token}
      (h : Derives reads (.operand p e) ts) : Derives reads (.chain p e) ts
  | operation {t : Token} {op : Operator} {l r : ParsedExpr} {ls rs : List Token}
      (left : Derives reads (.chain op.power l) ls) (kind : t.kind = .sign op.sign)
      (right : Derives reads (.operand op.power r) rs) :
      Derives reads (.chain op.power (.binary op l r l.note)) (ls ++ t :: rs)
  | noArgument : Derives reads (.arguments []) []
  | lastArgument {e : ParsedExpr} {ts : List Token} (h : Derives reads (.expr e) ts) :
      Derives reads (.arguments [e]) ts
  | moreArguments {t : Token} {e : ParsedExpr} {es : List ParsedExpr} {ts us : List Token}
      (first : Derives reads (.expr e) ts) (kind : t.kind = .sign .comma)
      (rest : Derives reads (.arguments es) us) :
      Derives reads (.arguments (e :: es)) (ts ++ t :: us)
  | noParam : Derives reads (.params []) []
  | lastParam {x c y : Token} {ty : Ty} (name : x.kind = .identifier)
      (colon : c.kind = .sign .colon) (type : y.IsType ty) :
      Derives reads (.params [(x.value, ty)]) [x, c, y]
  | moreParams {x c y t : Token} {ty : Ty} {ps : List (String × Ty)} {ts : List Token}
      (name : x.kind = .identifier) (colon : c.kind = .sign .colon) (type : y.IsType ty)
      (kind : t.kind = .sign .comma) (rest : Derives reads (.params ps) ts) :
      Derives reads (.params ((x.value, ty) :: ps)) (x :: c :: y :: t :: ts)
  | noReturns : Derives reads (.returns .void) []
  | someReturns {a y : Token} {ty : Ty} (arrow : a.kind = .sign .arrow) (type : y.IsType ty) :
      Derives reads (.returns ty) [a, y]
  | declare {k x c y a z : Token} {m : Bool} {ty : Ty} {e : ParsedExpr} {ts : List Token}
      (keyword : k.kind = .keyword (if m then .mutKw else .letKw)) (name : x.kind = .identifier)
      (colon : c.kind = .sign .colon) (type : y.IsType ty) (equals : a.kind = .sign .assignment)
      (value : Derives reads (.expr e) ts) (ends : z.kind = .sign .semicolon) :
      Derives reads (.stmt (.declare { name := x.value, ty, mutable := m } e (some k.line)))
        (k :: x :: c :: y :: a :: (ts ++ [z]))
  | assign {x a z : Token} {e : ParsedExpr} {ts : List Token} (name : x.kind = .identifier)
      (equals : a.kind = .sign .assignment) (value : Derives reads (.expr e) ts)
      (ends : z.kind = .sign .semicolon) :
      Derives reads (.stmt (.assign x.value e (some x.line))) (x :: a :: (ts ++ [z]))
  | ofBranch {s : ParsedStmt} {ts : List Token} (h : Derives reads (.branch s) ts) :
      Derives reads (.stmt s) ts
  | loop {k : Token} {e : ParsedExpr} {body : List ParsedStmt} {ts us : List Token}
      (keyword : k.kind = .keyword .whileKw) (condition : Derives reads (.expr e) ts)
      (inside : Derives reads (.block body) us) :
      Derives reads (.stmt (.loop e body (some k.line))) (k :: (ts ++ us))
  | function {k x o c : Token} {ps : List (String × Ty)} {ty : Ty} {body : List ParsedStmt}
      {ts us vs : List Token} (keyword : k.kind = .keyword .fnKw) (name : x.kind = .identifier)
      (opens : o.kind = .sign .openParen) (params : Derives reads (.params ps) ts)
      (closes : c.kind = .sign .closeParen) (returns : Derives reads (.returns ty) us)
      (inside : Derives reads (.block body) vs) :
      Derives reads
        (.stmt (.function { name := x.value, params := ps, returns := ty } body (some k.line)))
        (k :: x :: o :: (ts ++ c :: (us ++ vs)))
  | retNone {k z : Token} (keyword : k.kind = .keyword .returnKw)
      (ends : z.kind = .sign .semicolon) : Derives reads (.stmt (.ret none (some k.line))) [k, z]
  | retSome {k z : Token} {e : ParsedExpr} {ts : List Token}
      (keyword : k.kind = .keyword .returnKw) (value : Derives reads (.expr e) ts)
      (ends : z.kind = .sign .semicolon) :
      Derives reads (.stmt (.ret (some e) (some k.line))) (k :: (ts ++ [z]))
  | print {k o c z : Token} {es : List ParsedExpr} {ts : List Token}
      (keyword : k.kind = .keyword .printKw) (opens : o.kind = .sign .openParen)
      (values : Derives reads (.arguments es) ts) (nonempty : es ≠ [])
      (closes : c.kind = .sign .closeParen) (ends : z.kind = .sign .semicolon) :
      Derives reads (.stmt (.print es (some k.line))) (k :: o :: (ts ++ [c, z]))
  | exprStmt {t z : Token} {e : ParsedExpr} {ts : List Token}
      (value : Derives reads (.expr e) (t :: ts)) (ends : z.kind = .sign .semicolon) :
      Derives reads (.stmt (.expr e (some t.line))) (t :: (ts ++ [z]))
  | branch {k : Token} {e : ParsedExpr} {body other : List ParsedStmt} {ts us vs : List Token}
      (keyword : k.kind = .keyword .ifKw) (condition : Derives reads (.expr e) ts)
      (inside : Derives reads (.block body) us) (behind : Derives reads (.otherwise other) vs) :
      Derives reads (.branch (.branch e body other (some k.line))) (k :: (ts ++ (us ++ vs)))
  | noElse : Derives reads (.otherwise []) []
  | elseBranch {k : Token} {s : ParsedStmt} {ts : List Token}
      (keyword : k.kind = .keyword .elseKw) (h : Derives reads (.branch s) ts) :
      Derives reads (.otherwise [s]) (k :: ts)
  | elseBlock {k : Token} {body : List ParsedStmt} {ts : List Token}
      (keyword : k.kind = .keyword .elseKw) (h : Derives reads (.block body) ts) :
      Derives reads (.otherwise body) (k :: ts)
  | block {o c : Token} {body : List ParsedStmt} {ts : List Token}
      (opens : o.kind = .sign .openCurly) (inside : Derives reads (.stmts body) ts)
      (closes : c.kind = .sign .closeCurly) : Derives reads (.block body) (o :: (ts ++ [c]))
  | noStmt : Derives reads (.stmts []) []
  | moreStmts {s : ParsedStmt} {body : List ParsedStmt} {ts us : List Token}
      (first : Derives reads (.stmt s) ts) (rest : Derives reads (.stmts body) us) :
      Derives reads (.stmts (s :: body)) (ts ++ us)

namespace Phrase

/-- The notions for expressions; nothing but an expression is among their parts. -/
def IsExpr : Phrase → Prop
  | chain .. | unary .. | atom .. | callee .. | arguments .. => True
  | _ => False

/-- The notions that no empty list of tokens makes up. -/
def IsSolid : Phrase → Prop
  | chain .. | unary .. | atom .. | callee .. | stmt .. | branch .. | block .. => True
  | _ => False

/-- The tree of an expression that is not yet cut into parts. -/
def tree? : Phrase → Option ParsedExpr
  | chain _ e | unary e | atom e => some e
  | _ => none

@[simp] theorem tree?_operand (p : Power) (e : ParsedExpr) : (operand p e).tree? = some e := by
  cases p <;> rfl

@[simp] theorem isExpr_operand (p : Power) (e : ParsedExpr) : (operand p e).IsExpr := by
  cases p <;> trivial

@[simp] theorem isSolid_operand (p : Power) (e : ParsedExpr) : (operand p e).IsSolid := by
  cases p <;> trivial

@[simp] theorem isExpr_expr (e : ParsedExpr) : (expr e).IsExpr := trivial

@[simp] theorem isSolid_expr (e : ParsedExpr) : (expr e).IsSolid := trivial

end Phrase

namespace Derives

variable {reads : String → Number → Prop} {φ : Phrase} {e : ParsedExpr} {ts : List Token}

theorem length_pos (h : Derives reads φ ts) (hφ : φ.IsSolid) : 0 < ts.length := by
  induction h with
  | ofAtom _ ih | ofBranch _ ih => exact ih trivial
  | ofOperand _ ih => exact ih (by simp)
  | noArgument | lastArgument | moreArguments | noReturns | noParam | noElse | noStmt | moreStmts =>
    exact hφ.elim
  | call | operation =>
    rw [List.length_append, List.length_cons]
    omega
  | _ => simp

theorem eq_nil_of_arguments {es : List ParsedExpr} (h : Derives reads (.arguments es) []) :
    es = [] := by
  generalize hts : ([] : List Token) = ts at h
  cases h with
  | noArgument => rfl
  | lastArgument h => exact absurd (h.length_pos trivial) (by simp [← hts])
  | moreArguments => simp at hts

/-- No assignment stands inside an expression. -/
theorem ne_assignment (h : Derives reads φ ts) (hφ : φ.IsExpr) :
    ∀ t ∈ ts, t.kind ≠ .sign .assignment := by
  induction h with
  | number kind | string kind | bool kind | var kind | name kind => simp [kind]
  | ofAtom _ ih => exact ih trivial
  | ofOperand _ ih => exact ih (by simp)
  | lastArgument _ ih => exact ih trivial
  | noArgument => simp
  | negate kind _ ih => simpa [kind] using ih trivial
  | group opens _ closes ih | parens opens _ closes ih =>
    simpa [opens, closes, or_imp, forall_and] using ih trivial
  | call _ opens _ closes ihf ih =>
    simpa [opens, closes, or_imp, forall_and] using ⟨ihf trivial, ih trivial⟩
  | operation _ kind _ ihl ihr =>
    simpa [kind, or_imp, forall_and] using ⟨ihl trivial, ihr (by simp)⟩
  | moreArguments _ kind _ ih ihs =>
    simpa [kind, or_imp, forall_and] using ⟨ih trivial, ihs trivial⟩
  | _ => exact hφ.elim

theorem operand_of_unary (h : Derives reads (.unary e) ts) (p : Power) :
    Derives reads (.operand p e) ts := by
  have hmul : Derives reads (.chain .multiplicative e) ts := .ofOperand h
  have hadd : Derives reads (.chain .additive e) ts := .ofOperand hmul
  have hrel : Derives reads (.chain .relational e) ts := .ofOperand hadd
  cases p with
  | default => exact hrel
  | relational => exact hadd
  | additive => exact hmul
  | multiplicative | unary | call => exact h

/-- A chain of tight operators is a chain of looser ones as well. -/
theorem chain_of_le {op : Operator} (h : Derives reads (.chain op.power e) ts) (op' : Operator)
    (hle : op'.power.rank ≤ op.power.rank) : Derives reads (.chain op'.power e) ts := by
  have hadd : Derives reads (.chain .multiplicative e) ts → Derives reads (.chain .additive e) ts :=
    fun h => .ofOperand h
  have hrel : Derives reads (.chain .additive e) ts → Derives reads (.chain .relational e) ts :=
    fun h => .ofOperand h
  have hq := op.power_cases
  have hp := op'.power_cases
  grind [Power.rank]

theorem operand_of_chain {op : Operator} {p : Power} (hlt : p < op.power)
    (h : Derives reads (.chain op.power e) ts) : Derives reads (.operand p e) ts := by
  have hrank : p.rank < op.power.rank := hlt
  cases p with
  | default => exact h.chain_of_le .equals (Nat.succ_le_of_lt hrank)
  | relational => exact h.chain_of_le .add (Nat.succ_le_of_lt hrank)
  | additive => exact h.chain_of_le .multiply (Nat.succ_le_of_lt hrank)
  | multiplicative | unary | call =>
    have := op.power_cases
    grind [Power.rank]

/-- An expression that is a bare name stands in nothing but parentheses. -/
theorem callee_of_var {f : String} {line : Line} (h : Derives reads φ ts)
    (hφ : φ.tree? = some (.var f line)) : Derives reads (.callee f line) ts := by
  induction h with
  | var kind =>
    cases hφ
    exact .name kind
  | group opens _ closes ih => exact .parens opens (ih hφ) closes
  | ofAtom _ ih => exact ih hφ
  | ofOperand _ ih => exact ih ((Phrase.tree?_operand ..).trans hφ)
  | _ => cases hφ

end Derives

end Chalk
