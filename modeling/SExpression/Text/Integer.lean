import SExpression.Text.Digit
import SExpression.Text.Numeral
import SExpression.Text.Ranges

/-! Integers as people write them: decimal digits of any script, a sign, separators between
digits, and spaces around. Numerals with too many digits are refused.

That is the only limit of a runtime that is kept here. A number of any size is written as text, in
messages too, and what is nested to any depth is read, printed and dumped. -/
namespace SExpression
namespace CodePoint

def isSpace (c : CodePoint) : Bool :=
  Text.inRanges c.value [(0x9, 0xD), (0x20, 0x20), (0x85, 0x85), (0xA0, 0xA0), (0x1680, 0x1680),
    (0x2000, 0x200A), (0x2028, 0x2029), (0x202F, 0x202F), (0x205F, 0x205F), (0x3000, 0x3000)]

end CodePoint

namespace Text

def trim (text : Text) : Text :=
  ((text.dropWhile CodePoint.isSpace).reverse.dropWhile CodePoint.isSpace).reverse

/-- The values of the digits. A separator stands between two of them. -/
def digits? : Text → Option (List Nat)
  | [] => none
  | [c] => c.decimalValue?.map ([·])
  | c :: d :: cs =>
    c.decimalValue?.bind fun n => ((if d = '_' then digits? cs else digits? (d :: cs))).map (n :: ·)

/-- Numerals beyond this many digits are refused. -/
def mostDigits : Nat := 4300

/-- What is said of a numeral of `count` digits where no more than `most` are read. -/
def tooManyDigits (most count : Nat) : Text :=
  "Exceeds the limit (" ++ ofNat most ++
    " digits) for integer string conversion: value has " ++ ofNat count ++
    " digits; use sys.set_int_max_str_digits() to increase the limit"

def toNat? (text : Text) : Option Nat :=
  text.digits?.bind fun digits =>
    if digits.length ≤ mostDigits then some (digits.foldl (fun n d => n * 10 + d) 0) else none

def toInt? (text : Text) : Option Int :=
  match text.trim with
  | [] => none
  | c :: cs =>
    if c = '-' then (toNat? cs).map fun n => -n
    else if c = '+' then (toNat? cs).map Int.ofNat
    else (toNat? (c :: cs)).map Int.ofNat

end Text
end SExpression
