import SExpression.Element.Assembly
import SExpression.Text.Lines
import SExpression.Text.Utf16

/-! What an editor is told about a document: its first error, in lines and UTF-16 columns
counted from 0. -/
namespace SExpression

structure Place where
  line : Int
  character : Int
deriving DecidableEq

structure Diagnostic where
  start : Place
  stop : Place
  message : Text
deriving DecidableEq

namespace Place

/-- Columns past the end of the line count as its end; a line that is not there keeps them. -/
def ofPosition (text : Text) (p : Position) : Place where
  line := p.line - 1
  character :=
    match text.line? p.line with
    | some line => Text.utf16Length (line.take p.column.toNat)
    | none => p.column

end Place

namespace Diagnostic

/-- The code point at a position; a space where its line has ended. -/
def codePointAt (text : Text) (p : Position) : CodePoint :=
  ((text.line? p.line).bind (·[p.column.toNat]?)).getD ' '

def ofRange (text : Text) (start stop : Position) (message : Text) : Diagnostic :=
  ⟨.ofPosition text start, .ofPosition text stop, message⟩

/-- A lexical error is shown on one code point, any other on its span. -/
def ofError (text : Text) : ParseError → Diagnostic
  | .token e => ofRange text e.position (e.position.advance (codePointAt text e.position)) e.message
  | e => ofRange text e.span.start e.span.stop e.message

def collect (f : Features) (text : Text) : List Diagnostic :=
  ((Source.ofText text).cursor.elements f none).error.toList.map (ofError text)

end Diagnostic
end SExpression
