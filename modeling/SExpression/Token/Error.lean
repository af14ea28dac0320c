import SExpression.Position
import SExpression.Text.Quoted
import SExpression.Text.Utf8

/-! Why no token could be read. -/
namespace SExpression

inductive TokenError where
  /-- The bytes from `offset` on are not UTF-8. -/
  | badData (cause : Utf8.DecodeError) (offset : Nat) (position : Position)
  /-- The string opened at `position` has no end in what was `reached`. -/
  | unterminatedString (position reached : Position)
  | unterminatedBytes (position : Position)
  /-- Neither a digit nor the closing number sign of a bytes literal. -/
  | brokenBytes (position : Position) (found : CodePoint)
  | unprocessable (position : Position) (found : CodePoint)
deriving DecidableEq

namespace TokenError

def message : TokenError → Text
  | .badData cause offset _ => cause.message ++ " at byte offset " ++ Text.ofNat offset
  | .unterminatedString .. => "unterminated string literal"
  | .unterminatedBytes _ => "unterminated bytes literal: unexpected end of input"
  | .brokenBytes _ found =>
    "unterminated bytes literal: expected '#', found " ++ Text.quoted [found]
  | .unprocessable _ found => "unprocessable character " ++ Text.quoted [found]

def position : TokenError → Position
  | .badData _ _ position
  | .unterminatedString position _
  | .unterminatedBytes position
  | .brokenBytes position _
  | .unprocessable position _ => position

end TokenError
end SExpression
