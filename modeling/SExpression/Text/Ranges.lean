/-! Membership in an ascending list of inclusive ranges. -/
namespace SExpression.Text

def inRanges (n : Nat) : List (Nat × Nat) → Bool
  | [] => false
  | (low, high) :: ranges => low ≤ n && (n ≤ high || inRanges n ranges)

end SExpression.Text
