import SExpression.Text.CodePoint

/-! Numbers as text. -/
namespace SExpression.Text

def ofNat (n : Nat) : Text :=
  (Nat.toDigits 10 n).map .ofChar

def ofInt : Int → Text
  | .ofNat n => ofNat n
  | .negSucc n => CodePoint.ofChar '-' :: ofNat (n + 1)

/-- The last `width` lower-case hexadecimal digits. -/
def hexOfNat : (width : Nat) → Nat → Text
  | 0, _ => []
  | width + 1, n => hexOfNat width (n / 16) ++ [CodePoint.ofChar (Nat.digitChar (n % 16))]

@[simp] theorem length_hexOfNat (width n : Nat) : (hexOfNat width n).length = width := by
  induction width generalizing n with
  | zero => rfl
  | succ width ih => simp [hexOfNat, ih]

end SExpression.Text
