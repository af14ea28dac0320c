import SExpression.Token.Error
import SExpression.Token

/-! Why no element could be read. -/
namespace SExpression

inductive ParseError where
  | token (error : TokenError)
  /-- A closing delimiter where no group is open. -/
  | unopened (shape : Shape) (span : Span)
  /-- A group closed by a delimiter of another shape; the span is that of the whole group. -/
  | mismatched (expected found : Shape) (span : Span)
  /-- The source ends in a group; the span is that of its opening delimiter. -/
  | unfinished (shape : Shape) (span : Span)
  | tooDeep (limit : Int) (span : Span)
deriving DecidableEq

namespace ParseError

def message : ParseError → Text
  | .token error => error.message
  | .unopened shape _ => "unbalanced: unexpected close '" ++ [shape.closing] ++ "'"
  | .mismatched expected found _ =>
    "mismatched group: expected '" ++ [expected.closing] ++ "', found '" ++ [found.closing] ++ "'"
  | .unfinished shape _ => "unfinished group: '" ++ [shape.opening] ++ "' is never closed"
  | .tooDeep limit _ => "groups nested deeper than " ++ Text.ofInt limit ++ " levels"

def span : ParseError → Span
  | .token error => ⟨error.position, error.position⟩
  | .unopened _ span
  | .mismatched _ _ span
  | .unfinished _ span
  | .tooDeep _ span => span

end ParseError
end SExpression
