import SExpression.Atom
import SExpression.Text.Integer
import SExpression.Text.Quoted

/-! Integer literals as unsigned numbers of a given width. -/
namespace SExpression.Atom

inductive ConversionError where
  | notDigits (base : Base) (digits : Text)
  /-- There are `count` decimal digits, and no more than `most` are read. -/
  | tooMany (most count : Nat)
  | negativeWidth
  | tooWide (digits : Text) (bits : Int)
deriving DecidableEq

def ConversionError.message : ConversionError → Text
  | .notDigits base digits =>
    "invalid base " ++ Text.ofNat base.radix ++ " integer literal " ++ digits.quoted
  | .tooMany most count => Text.tooManyDigits most count
  | .negativeWidth => "negative shift count"
  | .tooWide digits bits =>
    "integer literal " ++ digits.quoted ++ " does not fit in u" ++ Text.ofInt bits

/-- The number that digits of the base denote, the most significant first. -/
def digitsValue (base : Base) (digits : Text) : Nat :=
  digits.foldl (fun n c => n * base.radix + c.digitValue) 0

/-- Only decimal digits are limited in number: the time it takes to read those of the other
bases grows no faster than their number. -/
def isTooMany (most : Nat) (base : Base) (count : Nat) : Bool :=
  base = .decimal && most < count

/-- The number that a literal denotes, if it fits in `bits`. Where a limit is given, no more
decimal digits than that are read. -/
def toUnsigned (limit : Option Nat) (base : Base) (digits : Text) (bits : Int) :
    Except ConversionError Nat :=
  let plain := withoutSeparators digits
  if plain.isEmpty || !plain.all base.isDigit then .error (.notDigits base digits)
  else if let some most := limit.filter (isTooMany · base plain.length) then
    .error (.tooMany most plain.length)
  else if bits < 0 then .error .negativeWidth
  else if digitsValue base plain >>> bits.toNat ≠ 0 then .error (.tooWide digits bits)
  else .ok (digitsValue base plain)

end SExpression.Atom
