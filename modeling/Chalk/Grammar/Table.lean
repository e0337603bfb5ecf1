import Chalk.Token.Kind

/-!
A grammar says, for each kind of token, which rule reads a statement that begins with it, which rule
reads an expression that begins with it, and which rule goes on with an expression that it follows.
A rule of the last sort has a power, and goes on only where the power asked for is lower. Grammars
can be changed entry by entry; `Grammar.chalk` is the grammar of the language.
-/

namespace Chalk

/-- How tightly an expression is held together, from the loosest on. -/
inductive Power where
  | default | relational | additive | multiplicative | unary | call
deriving DecidableEq, Repr, Inhabited

namespace Power

def rank : Power → Nat
  | default => 0
  | relational => 1
  | additive => 2
  | multiplicative => 3
  | unary => 4
  | call => 5

instance : LT Power :=
  ⟨fun a b => a.rank < b.rank⟩

instance (a b : Power) : Decidable (a < b) :=
  inferInstanceAs (Decidable (a.rank < b.rank))

/-- The name by which a power is listed. -/
def name : Power → String
  | default => "Default"
  | relational => "Relational"
  | additive => "Additive"
  | multiplicative => "Multiplicative"
  | unary => "Unary"
  | call => "Call"

def all : List Power :=
  [default, relational, additive, multiplicative, unary, call]

/-- The power listed under a name. -/
def ofName? (name : String) : Option Power :=
  all.find? (·.name == name)

end Power

/-- The rules that read a statement. -/
inductive StmtRule where
  /-- Any statement, by the grammar. -/
  | any
  | declaration
  | assignment
  | branch
  | loop
  | function
  | ret
  | print
deriving DecidableEq, Repr, Inhabited

/-- The rules that read the first part of an expression. -/
inductive HeadRule where
  /-- A literal or a name. -/
  | primary
  | negation
  /-- An expression in parentheses. -/
  | group
deriving DecidableEq, Repr, Inhabited

/-- The rules that go on with an expression. -/
inductive TailRule where
  /-- An operator and its right operand. -/
  | binary
  /-- The arguments of a call. -/
  | call
deriving DecidableEq, Repr, Inhabited

structure Grammar where
  stmt : Token.Kind → Option StmtRule
  head : Token.Kind → Option HeadRule
  tail : Token.Kind → Option (Power × TailRule)

namespace Grammar

/-- The grammar without rules. -/
def empty : Grammar where
  stmt _ := none
  head _ := none
  tail _ := none

/-- The grammar of the language. -/
def chalk : Grammar where
  stmt
    | .keyword .letKw | .keyword .mutKw => some .declaration
    | .keyword .ifKw => some .branch
    | .keyword .whileKw => some .loop
    | .keyword .fnKw => some .function
    | .keyword .returnKw => some .ret
    | .keyword .printKw => some .print
    | _ => none
  head
    | .number | .identifier | .string | .keyword .trueKw | .keyword .falseKw => some .primary
    | .sign .dash => some .negation
    | .sign .openParen => some .group
    | _ => none
  tail
    | .sign .less | .sign .lessEquals | .sign .greater | .sign .greaterEquals
    | .sign .equals | .sign .notEquals => some (.relational, .binary)
    | .sign .plus | .sign .dash => some (.additive, .binary)
    | .sign .star | .sign .slash => some (.multiplicative, .binary)
    | .sign .openParen => some (.call, .call)
    | _ => none

/-- How tightly a token of the given kind binds to the expression before it. -/
def power (g : Grammar) (kind : Token.Kind) : Power :=
  match g.tail kind with
  | some (power, _) => power
  | none => .default

/-- The grammar with a rule for the statements that begin with a kind. -/
def setStmt (g : Grammar) (kind : Token.Kind) (rule : StmtRule) : Grammar :=
  { g with stmt := fun k => if k = kind then some rule else g.stmt k }

/-- The grammar with a rule for the expressions that begin with a kind. -/
def setHead (g : Grammar) (kind : Token.Kind) (rule : HeadRule) : Grammar :=
  { g with head := fun k => if k = kind then some rule else g.head k }

/-- The grammar with a rule for what goes on with a kind. -/
def setTail (g : Grammar) (kind : Token.Kind) (power : Power) (rule : TailRule) : Grammar :=
  { g with tail := fun k => if k = kind then some (power, rule) else g.tail k }

end Grammar

end Chalk
