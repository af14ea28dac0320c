import SExpression.Text.CodePoint

/-! Lengths in UTF-16 code units. -/
namespace SExpression

def CodePoint.utf16Length (c : CodePoint) : Nat :=
  if c.value < 0x10000 then 1 else 2

def Text.utf16Length (text : Text) : Nat :=
  text.foldl (fun length c => length + c.utf16Length) 0

end SExpression
