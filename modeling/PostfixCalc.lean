import PostfixCalc.Binary64.Arithmetic
import PostfixCalc.Binary64.Text
import PostfixCalc.Bindings
import PostfixCalc.Calculator
import PostfixCalc.Conversion.Basic
import PostfixCalc.Decimal.Reader
import PostfixCalc.Expr.Printing
import PostfixCalc.Main
import PostfixCalc.Node
import PostfixCalc.Operator.Apply
import PostfixCalc.Proofs.Arity
import PostfixCalc.Proofs.Conversion.Brackets
import PostfixCalc.Proofs.Conversion.Calls
import PostfixCalc.Proofs.Conversion.Composition
import PostfixCalc.Proofs.Conversion.Conservation
import PostfixCalc.Proofs.Conversion.Isolation
import PostfixCalc.Proofs.Conversion.Quotes
import PostfixCalc.Proofs.Conversion.Steps
import PostfixCalc.Proofs.Conversion.Substitution
import PostfixCalc.Proofs.Cursor.Basic
import PostfixCalc.Proofs.Cursor.Buffer
import PostfixCalc.Proofs.Cursor.Refinement
import PostfixCalc.Proofs.Evaluation.Depth
import PostfixCalc.Proofs.Evaluation.Domain
import PostfixCalc.Proofs.Evaluation.NumberDomain
import PostfixCalc.Proofs.Evaluation.Tree
import PostfixCalc.Proofs.Grammar.Acceptance
import PostfixCalc.Proofs.Grammar.Arrangement
import PostfixCalc.Proofs.Grammar.Basic
import PostfixCalc.Proofs.Grammar.Conversion
import PostfixCalc.Proofs.Grammar.Printing
import PostfixCalc.Proofs.Grammar.Sequences
import PostfixCalc.Proofs.Journal
import PostfixCalc.Proofs.Journal.Rejections
import PostfixCalc.Proofs.Journal.Texts
import PostfixCalc.Proofs.Lexing.Basic
import PostfixCalc.Proofs.Lexing.Longest
import PostfixCalc.Proofs.Lexing.Reference
import PostfixCalc.Proofs.Lexing.Rules
import PostfixCalc.Proofs.Lexing.Seams
import PostfixCalc.Proofs.Lexing.Spacing
import PostfixCalc.Proofs.Lexing.Spelling
import PostfixCalc.Proofs.Lexing.Texts
import PostfixCalc.Proofs.NumberText
import PostfixCalc.Proofs.Printing.Decomposition
import PostfixCalc.Proofs.Printing.Listing
import PostfixCalc.Proofs.Printing.Loose
import PostfixCalc.Proofs.Printing.Minimality
import PostfixCalc.Proofs.Printing.Numbers
import PostfixCalc.Proofs.Printing.Parentheses
import PostfixCalc.Proofs.Results.FixedPoint
import PostfixCalc.Proofs.RoundTrip
import PostfixCalc.Proofs.Status
import PostfixCalc.Scanner.Command
import PostfixCalc.Text.Blank
import PostfixCalc.Text.Quoted
import PostfixCalc.Token.Lexer
