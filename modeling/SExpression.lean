import SExpression.Diagnostics
import SExpression.Element.Selection
import SExpression.Main
import SExpression.Proofs.Encoding
import SExpression.Proofs.Decoding
import SExpression.Proofs.Sequences
import SExpression.Proofs.Replacement
import SExpression.Proofs.Grammar
import SExpression.Proofs.Reading
import SExpression.Proofs.Tokens
import SExpression.Proofs.Assembly
import SExpression.Proofs.Flattening
import SExpression.Proofs.Balance
import SExpression.Proofs.Printing
import SExpression.Proofs.Writing
import SExpression.Proofs.Passage
import SExpression.Proofs.Places
import SExpression.Proofs.Layout
import SExpression.Proofs.Boundaries
import SExpression.Proofs.Faults
import SExpression.Proofs.Restart
import SExpression.Proofs.Concatenation
import SExpression.Proofs.Nesting
import SExpression.Proofs.Excerpts
import SExpression.Proofs.Comments
import SExpression.Proofs.Widening
import SExpression.Proofs.Interleaving
import SExpression.Proofs.Spans
import SExpression.Proofs.Advance
import SExpression.Proofs.Lines
import SExpression.Proofs.Offsets
import SExpression.Proofs.Causes
import SExpression.Proofs.Reports
import SExpression.Proofs.Files
import SExpression.Proofs.Runs
import SExpression.Proofs.Agreement
import SExpression.Proofs.Watching
import SExpression.Proofs.Numerals
import SExpression.Proofs.Quotes
import SExpression.Proofs.Carets
import SExpression.Proofs.Calls
import SExpression.Proofs.CodeUnits
import SExpression.Proofs.Highlights
import SExpression.Proofs.Checking
import SExpression.Proofs.Sightings
import SExpression.Proofs.Delimiting
import SExpression.Proofs.LineBreaks
import SExpression.Proofs.Precedence
import SExpression.Proofs.Dumps
