import SExpression.Atom
import SExpression.Position

/-! Tokens: delimiters, comments and atoms, each with the place it was read from. -/
namespace SExpression

/-- The pair of delimiters that a group stands in. -/
inductive Shape where
  | round
  | square
  | curly
deriving DecidableEq

namespace Shape

def all : List Shape := [.round, .square, .curly]

def opening : Shape → CodePoint
  | .round => '('
  | .square => '['
  | .curly => '{'

def closing : Shape → CodePoint
  | .round => ')'
  | .square => ']'
  | .curly => '}'

def name : Shape → Text
  | .round => "PAREN"
  | .square => "BRACKET"
  | .curly => "BRACE"

end Shape

inductive Lexeme where
  | opening (shape : Shape)
  | closing (shape : Shape)
  /-- The text starts with its semicolon and ends before the newline. -/
  | comment (text : Text)
  | atom (value : Atom)
deriving DecidableEq

namespace Lexeme

def spelling : Lexeme → Text
  | .opening shape => [shape.opening]
  | .closing shape => [shape.closing]
  | .comment text => text
  | .atom value => value.spelling

def isComment : Lexeme → Bool
  | .comment _ => true
  | _ => false

end Lexeme

structure Token where
  lexeme : Lexeme
  span : Span
deriving DecidableEq

end SExpression
