import Chalk.C.Emitter
import Chalk.C.Expr
import Chalk.C.Literal
import Chalk.C.Program
import Chalk.C.Stmt
import Chalk.C.Ty
import Chalk.Command.FileTree
import Chalk.Command.Log
import Chalk.Command.Options
import Chalk.Command.Path
import Chalk.Command.Session
import Chalk.Compile
import Chalk.Decimal.Binary64
import Chalk.Decimal.Read
import Chalk.Decimal.Shortest
import Chalk.Decimal.Text
import Chalk.Diagnostic.Report
import Chalk.Diagnostic.Semantic
import Chalk.Diagnostic.Syntactic
import Chalk.Grammar.Parser
import Chalk.Grammar.Program
import Chalk.Grammar.Rules
import Chalk.Grammar.Stream
import Chalk.Grammar.Table
import Chalk.Main
import Chalk.Proofs.C.Arguments
import Chalk.Proofs.C.Constant
import Chalk.Proofs.C.Denotation
import Chalk.Proofs.C.Emission
import Chalk.Proofs.C.Layout
import Chalk.Proofs.C.Literal
import Chalk.Proofs.C.Names
import Chalk.Proofs.C.NumberText
import Chalk.Proofs.C.Occurrences
import Chalk.Proofs.C.Outside
import Chalk.Proofs.C.ReadBack
import Chalk.Proofs.C.RoundTrip
import Chalk.Proofs.C.Scanner
import Chalk.Proofs.C.Scoping
import Chalk.Proofs.Command.Files
import Chalk.Proofs.Command.Overwrite
import Chalk.Proofs.Command.Path
import Chalk.Proofs.Command.Session
import Chalk.Proofs.Compile.Concatenation
import Chalk.Proofs.Compile.Declarations
import Chalk.Proofs.Compile.Extent
import Chalk.Proofs.Compile.Independence
import Chalk.Proofs.Compile.Nesting
import Chalk.Proofs.Compile.Numbers
import Chalk.Proofs.Compile.Provenance
import Chalk.Proofs.Compile.Report
import Chalk.Proofs.Compile.WellFormed
import Chalk.Proofs.Decimal.Digits
import Chalk.Proofs.Decimal.Rounding
import Chalk.Proofs.Grammar.Acceptance
import Chalk.Proofs.Grammar.Completeness
import Chalk.Proofs.Grammar.Contents
import Chalk.Proofs.Grammar.Depth
import Chalk.Proofs.Grammar.Derivation
import Chalk.Proofs.Grammar.EarliestFault
import Chalk.Proofs.Grammar.Numeral
import Chalk.Proofs.Grammar.Progress
import Chalk.Proofs.Grammar.Prompt
import Chalk.Proofs.Grammar.Reading
import Chalk.Proofs.Grammar.Relocation
import Chalk.Proofs.Grammar.Soundness
import Chalk.Proofs.Grammar.Viability
import Chalk.Proofs.Outcome
import Chalk.Proofs.Text.Lines
import Chalk.Proofs.Token.Concatenation
import Chalk.Proofs.Token.Fault
import Chalk.Proofs.Token.Layout
import Chalk.Proofs.Token.Lexing
import Chalk.Proofs.Token.Literal
import Chalk.Proofs.Token.LongestPiece
import Chalk.Proofs.Token.Lossless
import Chalk.Proofs.Token.Pieces
import Chalk.Proofs.Token.Visible
import Chalk.Proofs.Token.Writing
import Chalk.Proofs.Typing.Agreement
import Chalk.Proofs.Typing.Blame
import Chalk.Proofs.Typing.FirstFault
import Chalk.Proofs.Typing.Frame
import Chalk.Proofs.Typing.History
import Chalk.Proofs.Typing.Relevance
import Chalk.Proofs.Typing.Relocation
import Chalk.Proofs.Typing.Resolution
import Chalk.Proofs.Typing.Rules
import Chalk.Proofs.Typing.Traversal
import Chalk.Source.Position
import Chalk.Text.Blank
import Chalk.Text.CharSet
import Chalk.Text.Extending
import Chalk.Text.Ignorable
import Chalk.Text.Invisible
import Chalk.Text.Lines
import Chalk.Text.Quoted
import Chalk.Text.Utf8
import Chalk.Token.Basic
import Chalk.Token.Cursor
import Chalk.Token.Escape
import Chalk.Token.Kind
import Chalk.Token.Lexeme
import Chalk.Token.Scan
import Chalk.Tree.Expr
import Chalk.Tree.Listing
import Chalk.Tree.Number
import Chalk.Tree.Operator
import Chalk.Tree.Outline
import Chalk.Tree.Stmt
import Chalk.Tree.Ty
import Chalk.Typing.Expr
import Chalk.Typing.Scope
import Chalk.Typing.Stmt
