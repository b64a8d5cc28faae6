import StackListing.Position
import StackListing.ValueType
import StackListing.Token
import StackListing.Token.Segment
import StackListing.Token.Scan
import StackListing.Token.Cursor
import StackListing.Text.Blank
import StackListing.Text.Hidden
import StackListing.Text.Quoted
import StackListing.Diagnostic
import StackListing.Number.Binary64
import StackListing.Number.Reading
import StackListing.Number.Shortest
import StackListing.Literal
import StackListing.Operator
import StackListing.Expr
import StackListing.Stmt
import StackListing.TokenStream
import StackListing.Grammar
import StackListing.Parse
import StackListing.Expr.Parse
import StackListing.Stmt.Parse
import StackListing.SymbolTable
import StackListing.Expr.Infer
import StackListing.Stmt.Check
import StackListing.Instruction
import StackListing.Listing
import StackListing.Expr.Code
import StackListing.Stmt.Code
import StackListing.Draft
import StackListing.Excerpt
import StackListing.Compilation
import StackListing.Path
import StackListing.FileTree
import StackListing.Arguments
import StackListing.Session
import StackListing.Main
import StackListing.Proofs.Parsing.Steady
import StackListing.Proofs.Parsing.Reads
import StackListing.Proofs.Grammar.Tree
import StackListing.Proofs.Grammar.ExprReading
import StackListing.Proofs.Grammar.SimpleStmtReading
import StackListing.Proofs.Grammar.StmtReading
import StackListing.Proofs.Grammar.Unambiguous
import StackListing.Proofs.Grammar.Acceptance
import StackListing.Proofs.Parsing.Agree
import StackListing.Proofs.Parsing.Consuming
import StackListing.Proofs.Parsing.Compositional
import StackListing.Proofs.Parsing.Oblivious
import StackListing.Proofs.Descent.Levels
import StackListing.Proofs.Descent.Equivalence
import StackListing.Proofs.Recovery.Progress
import StackListing.Proofs.Recovery.Unbounded
import StackListing.Proofs.Recovery.Charge
import StackListing.Proofs.Recovery.Cursor
import StackListing.Proofs.Recovery.Boundary
import StackListing.Proofs.Recovery.Concatenation
import StackListing.Proofs.Recovery.Shape
import StackListing.Proofs.Symbols.Arena
import StackListing.Proofs.Symbols.Stack
import StackListing.Proofs.Typing.Rules
import StackListing.Proofs.Typing.Checking
import StackListing.Proofs.Typing.Framing
import StackListing.Proofs.Typing.Selection
import StackListing.Proofs.Typing.Undeclared
import StackListing.Proofs.Typing.Returns
import StackListing.Proofs.Typing.Inversion
import StackListing.Proofs.Typing.Exchange
import StackListing.Proofs.Typing.Blame
import StackListing.Proofs.Execution.Machine
import StackListing.Proofs.Execution.Meaning
import StackListing.Proofs.Execution.Runs
import StackListing.Proofs.Execution.Operators
import StackListing.Proofs.Execution.ExprCode
import StackListing.Proofs.Execution.Labels
import StackListing.Proofs.Execution.StmtCode
import StackListing.Proofs.Execution.Truth
import StackListing.Proofs.Execution.Endings
import StackListing.Proofs.Execution.Emission
import StackListing.Proofs.Phases.Categories
import StackListing.Proofs.Phases.Gating
import StackListing.Proofs.Lexing.Patterns
import StackListing.Proofs.Lexing.Munching
import StackListing.Proofs.Lexing.MaximalMunch
import StackListing.Proofs.Lexing.Blanks
import StackListing.Proofs.Lexing.LineByLine
import StackListing.Proofs.Lexing.StrayCharacters
import StackListing.Proofs.Lexing.Respacing
import StackListing.Proofs.Number.Rounding
import StackListing.Proofs.Number.DecimalText
import StackListing.Proofs.Printing.Comparison
import StackListing.Proofs.Printing.Parts
import StackListing.Proofs.Printing.Yields
import StackListing.Proofs.Printing.ExprText
import StackListing.Proofs.Printing.RoundTrip
import StackListing.Proofs.Printing.Shown
import StackListing.Proofs.Printing.Telling
import StackListing.Proofs.Printing.ExprUnique
import StackListing.Proofs.Printing.Unique
import StackListing.Proofs.Number.Literals
import StackListing.Proofs.Listing.Taken
import StackListing.Proofs.Listing.Jumps
import StackListing.Proofs.Listing.Places
import StackListing.Proofs.Listing.Definitions
import StackListing.Proofs.Listing.Calls
import StackListing.Proofs.Listing.Flow
import StackListing.Proofs.Listing.Relocation
import StackListing.Proofs.Layout.Alike
import StackListing.Proofs.Layout.Reading
import StackListing.Proofs.Layout.Insensitivity
import StackListing.Proofs.Layout.Pointing
import StackListing.Proofs.Layout.Caret
import StackListing.Proofs.Files.Writing
import StackListing.Proofs.Files.Command
