import SExpression.Element.Error
import SExpression.Text.Lines

/-! Errors shown with the line they lie on and carets under it. -/
namespace SExpression

/-- A message about the text from `start` on, up to `stop` where an end is known. -/
structure Report where
  message : Text
  start : Position
  stop : Option Position
deriving DecidableEq

namespace Report

/-- The line that is shown, empty where the text has none of that number. -/
def line (r : Report) (shown : Text) : Text :=
  (shown.line? r.start.line).getD []

/-- Up to the end, if that is known and on the same line, else up to the end of the line; at
least one. -/
def caretCount (r : Report) (shown : Text) : Nat :=
  let last : Int :=
    match r.stop with
    | some stop => if stop.line = r.start.line then stop.column else (r.line shown).length
    | none => (r.line shown).length
  max 1 (last - r.start.column).toNat

def format (r : Report) (shown filename : Text) : Text :=
  let number := Text.ofInt r.start.line
  let margin := Text.repeated (number.length + 1) ' '
  "error: " ++ r.message ++ "\n" ++
    margin ++ "--> " ++ filename ++ ":" ++ number ++ ":" ++
      Text.ofInt (r.start.column + 1) ++ "\n" ++
    margin ++ "|\n" ++
    number ++ " | " ++ r.line shown ++ "\n" ++
    margin ++ "| " ++ Text.repeated r.start.column.toNat ' ' ++
      Text.repeated (r.caretCount shown) '^'

end Report

def TokenError.report (e : TokenError) : Report :=
  ⟨e.message, e.position, none⟩

def ParseError.report (e : ParseError) : Report :=
  ⟨e.message, e.span.start, some e.span.stop⟩

end SExpression
