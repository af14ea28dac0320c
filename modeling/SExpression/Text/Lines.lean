import SExpression.Text.CodePoint

/-! Text split at a separator, and the lines of a text. -/
namespace SExpression.Text

def split (separator : CodePoint) : Text → List Text
  | [] => [[]]
  | c :: cs =>
    if c = separator then [] :: split separator cs
    else
      match split separator cs with
      | [] => [[c]]
      | piece :: later => (c :: piece) :: later

theorem split_ne_nil (separator : CodePoint) (text : Text) : split separator text ≠ [] := by
  cases text with
  | nil => simp [split]
  | cons c cs =>
    simp only [split]
    split
    · simp
    · split <;> simp

theorem split_cons_self (separator : CodePoint) (cs : Text) :
    split separator (separator :: cs) = [] :: split separator cs := by
  rw [split, if_pos rfl]

/-- What is no separator comes to the piece that follows it. -/
theorem exists_split_cons {separator c : CodePoint} (h : c ≠ separator) (cs : Text) :
    ∃ piece later, split separator cs = piece :: later ∧
      split separator (c :: cs) = (c :: piece) :: later := by
  cases hcs : split separator cs with
  | nil => exact absurd hcs (split_ne_nil separator cs)
  | cons piece later => exact ⟨piece, later, rfl, by rw [split, if_neg h, hcs]⟩

/-- Nothing but a newline ends a line. -/
def lines (text : Text) : List Text :=
  text.split '\n'

/-- The line of that number, from 1. -/
def line? (text : Text) (number : Int) : Option Text :=
  if number < 1 then none else text.lines[(number - 1).toNat]?

end SExpression.Text
