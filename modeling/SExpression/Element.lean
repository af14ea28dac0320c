import SExpression.Token

/-! Elements: atoms, comments, and groups of elements, with the span each was read from. -/
namespace SExpression

inductive Element where
  | atom (value : Atom) (span : Span)
  | comment (text : Text) (span : Span)
  /-- The span runs from the opening to the closing delimiter. -/
  | group (shape : Shape) (members : List Element) (span : Span)

namespace Element

def span : Element → Span
  | .atom _ span
  | .comment _ span
  | .group _ _ span => span

def atom? : Element → Option Atom
  | .atom value _ => some value
  | _ => none

def comment? : Element → Option Text
  | .comment text _ => some text
  | _ => none

/-- The members of a group of that shape. -/
def members? (shape : Shape) : Element → Option (List Element)
  | .group own members _ => if own = shape then some members else none
  | _ => none

end Element
end SExpression
