/-!
The kinds of tokens. Besides names, literals and the end of the text there are the signs, which have
one spelling each, and the keywords, which are names set aside.
-/

namespace Chalk

/-- Operators and punctuation. -/
inductive Sign where
  | openCurly | closeCurly | openParen | closeParen
  | equals | notEquals | assignment
  | lessEquals | less | greaterEquals | greater
  | semicolon | colon | comma
  | arrow | plus | dash | slash | star
deriving DecidableEq, Repr, Inhabited

namespace Sign

def spelling : Sign → List Char
  | openCurly => ['{']
  | closeCurly => ['}']
  | openParen => ['(']
  | closeParen => [')']
  | equals => ['=', '=']
  | notEquals => ['!', '=']
  | assignment => ['=']
  | lessEquals => ['<', '=']
  | less => ['<']
  | greaterEquals => ['>', '=']
  | greater => ['>']
  | semicolon => [';']
  | colon => [':']
  | comma => [',']
  | arrow => ['-', '>']
  | plus => ['+']
  | dash => ['-']
  | slash => ['/']
  | star => ['*']

/-- The pattern by which a sign is found. A backslash stands in it before each character that would
mean something else by itself. -/
def pattern : Sign → List Char
  | openCurly => ['\\', '{']
  | closeCurly => ['\\', '}']
  | openParen => ['\\', '(']
  | closeParen => ['\\', ')']
  | equals => ['=', '=']
  | notEquals => ['!', '=']
  | assignment => ['=']
  | lessEquals => ['<', '=']
  | less => ['<']
  | greaterEquals => ['>', '=']
  | greater => ['>']
  | semicolon => [';']
  | colon => [':']
  | comma => [',']
  | arrow => ['-', '>']
  | plus => ['\\', '+']
  | dash => ['-']
  | slash => ['/']
  | star => ['\\', '*']

/-- The name by which a sign is listed. -/
def name : Sign → String
  | openCurly => "OpenCurly"
  | closeCurly => "CloseCurly"
  | openParen => "OpenParen"
  | closeParen => "CloseParen"
  | equals => "Equals"
  | notEquals => "NotEquals"
  | assignment => "Assignment"
  | lessEquals => "LessEquals"
  | less => "Less"
  | greaterEquals => "GreaterEquals"
  | greater => "Greater"
  | semicolon => "Semicolon"
  | colon => "Colon"
  | comma => "Comma"
  | arrow => "Arrow"
  | plus => "Plus"
  | dash => "Dash"
  | slash => "Slash"
  | star => "Star"

/-- Every sign, a longer one before the signs that begin it. -/
def all : List Sign :=
  [openCurly, closeCurly, openParen, closeParen, equals, notEquals, assignment, lessEquals, less,
    greaterEquals, greater, semicolon, colon, comma, arrow, plus, dash, slash, star]

theorem mem_all (s : Sign) : s ∈ all := by
  cases s <;> decide

theorem spelling_ne_nil (s : Sign) : s.spelling ≠ [] := by
  cases s <;> decide

end Sign

/-- Names set aside by the language. -/
inductive Keyword where
  | letKw | mutKw | fnKw | returnKw | ifKw | elseKw | whileKw | printKw | trueKw | falseKw
deriving DecidableEq, Repr, Inhabited

namespace Keyword

def spelling : Keyword → String
  | letKw => "let"
  | mutKw => "mut"
  | fnKw => "fn"
  | returnKw => "return"
  | ifKw => "if"
  | elseKw => "else"
  | whileKw => "while"
  | printKw => "print"
  | trueKw => "true"
  | falseKw => "false"

/-- The name by which a keyword is listed. -/
def name : Keyword → String
  | letKw => "Let"
  | mutKw => "Mut"
  | fnKw => "Fn"
  | returnKw => "Return"
  | ifKw => "If"
  | elseKw => "Else"
  | whileKw => "While"
  | printKw => "Print"
  | trueKw => "True"
  | falseKw => "False"

def all : List Keyword :=
  [letKw, mutKw, fnKw, returnKw, ifKw, elseKw, whileKw, printKw, trueKw, falseKw]

theorem mem_all (k : Keyword) : k ∈ all := by
  cases k <;> decide

/-- The keyword with the given spelling. -/
def ofSpelling? (word : String) : Option Keyword :=
  all.find? (·.spelling == word)

theorem ofSpelling?_eq_some_iff {word : String} {k : Keyword} :
    ofSpelling? word = some k ↔ k.spelling = word := by
  constructor
  · intro h
    simpa using List.find?_some h
  · rintro rfl
    cases k <;> decide

end Keyword

/-- What a token is. -/
inductive Token.Kind where
  | eof
  | number
  | string
  | identifier
  | sign (s : Sign)
  | keyword (k : Keyword)
deriving DecidableEq, Repr, Inhabited

namespace Token.Kind

/-- The name by which a kind is listed. -/
def name : Kind → String
  | eof => "EOF"
  | number => "Number"
  | string => "String"
  | identifier => "Identifier"
  | sign s => s.name
  | keyword k => k.name

def all : List Kind :=
  [eof, number, string, identifier] ++ Sign.all.map sign ++ Keyword.all.map keyword

/-- The kind listed under a name. -/
def ofName? (name : String) : Option Kind :=
  all.find? (·.name == name)

/-- The kind of a name: a keyword if the name is set aside, else an identifier. -/
def ofWord (word : String) : Kind :=
  match Keyword.ofSpelling? word with
  | some k => keyword k
  | none => identifier

end Token.Kind

end Chalk
