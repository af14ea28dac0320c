import SExpression.Text.Digit

/-! Atoms: the leaves that carry a value. Payloads keep the spelling of the source; reading
them as numbers, bytes or unescaped text is left to their users. -/
namespace SExpression

inductive Base where
  | binary
  | decimal
  | hexadecimal
deriving DecidableEq

namespace Base

def all : List Base := [.binary, .decimal, .hexadecimal]

def radix : Base → Nat
  | .binary => 2
  | .decimal => 10
  | .hexadecimal => 16

def ofRadix? (radix : Int) : Option Base :=
  all.find? fun base => base.radix = radix

/-- What a literal of the base starts with. -/
def marker : Base → Text
  | .binary => "0b"
  | .decimal => ""
  | .hexadecimal => "0x"

def isDigit : Base → CodePoint → Bool
  | .binary => CodePoint.isBinaryDigit
  | .decimal => CodePoint.isDigit
  | .hexadecimal => CodePoint.isHexDigit

end Base

inductive Atom where
  /-- The digits follow the marker of the base. -/
  | integer (base : Base) (digits : Text)
  | fraction (whole part : Text)
  /-- The digits between the number signs. -/
  | bytes (digits : Text)
  /-- The body still has its escapes, if it has any. -/
  | string (escaped : Bool) (body : Text)
  | identifier (name : Text)
deriving DecidableEq

namespace Atom

def spelling : Atom → Text
  | .integer base digits => base.marker ++ digits
  | .fraction whole part => whole ++ "." ++ part
  | .bytes digits => "#" ++ digits ++ "#"
  | .string _ body => "\"" ++ body ++ "\""
  | .identifier name => name

def withoutSeparators (digits : Text) : Text :=
  digits.filter (· ≠ '_')

end Atom
end SExpression
