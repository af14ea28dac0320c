import SExpression.Text.Numeral
import SExpression.Text.Printable

/-! Text between quotes, on one line and without unprintable characters: how dumps and
messages show it. -/
namespace SExpression
namespace Text

/-- A double quote only where the text has a single one and no double. -/
def quoteFor (text : Text) : CodePoint :=
  if text.contains (CodePoint.ofChar '\'') && !text.contains (CodePoint.ofChar '"') then '"'
  else '\''

def escape (quote c : CodePoint) : Text :=
  if c = quote ∨ c = '\\' then ['\\', c]
  else if c = '\n' then "\\n"
  else if c = '\r' then "\\r"
  else if c = '\t' then "\\t"
  else if c.isPrintable then [c]
  else if c.value < 0x100 then "\\x" ++ hexOfNat 2 c.value
  else if c.value < 0x10000 then "\\u" ++ hexOfNat 4 c.value
  else "\\U" ++ hexOfNat 8 c.value

def quoted (text : Text) : Text :=
  let quote := quoteFor text
  quote :: text.flatMap (escape quote) ++ [quote]

end Text
end SExpression
