import SExpression.Lexeme.Reading

/-! The lexical grammar, said apart from the reader: how each lexeme is spelled, which code
points would make it longer, and which texts are spellings in a row with blanks between. -/
namespace SExpression
open CodePoint (ofChar)

/-- A digit sequence before which no marker stands. One that starts with a zero is the zero
alone, or a digit comes next. -/
inductive Whole : Text → Prop
  | zero : Whole [ofChar '0']
  | zeroLed {d : CodePoint} {more : Text} (hd : d.isDigit)
      (hmore : ∀ c ∈ more, c.isDigit ∨ c = '_') : Whole (ofChar '0' :: d :: more)
  | positive {d : CodePoint} {more : Text} (hd : d.isDigit) (hzero : d ≠ '0')
      (hmore : ∀ c ∈ more, c.isDigit ∨ c = '_') : Whole (d :: more)

/-- What stands between the quotes of a string: no quote, except after a backslash. -/
inductive StringBody : Text → Prop
  | nil : StringBody []
  | plain {c : CodePoint} {body : Text} (hquote : c ≠ '"') (hescape : c ≠ '\\')
      (hbody : StringBody body) : StringBody (c :: body)
  | escape {c : CodePoint} {body : Text} (hbody : StringBody body) :
      StringBody (ofChar '\\' :: c :: body)

/-- The text is one lexeme. -/
inductive Spells (f : Features) : Text → Lexeme → Prop
  | opening {shape : Shape} (h : f.admits shape) : Spells f [shape.opening] (.opening shape)
  | closing {shape : Shape} (h : f.admits shape) : Spells f [shape.closing] (.closing shape)
  | comment {more : Text} (h : ∀ c ∈ more, c ≠ '\n') :
      Spells f (ofChar ';' :: more) (.comment (ofChar ';' :: more))
  | string {body : Text} {escaped : Bool} (h : StringBody body)
      (hescaped : escaped ↔ ofChar '\\' ∈ body) :
      Spells f (ofChar '"' :: body ++ [ofChar '"']) (.atom (.string escaped body))
  | bytes {digits : Text} (hf : f.bytes) (h : ∀ c ∈ digits, c.isHexDigit) :
      Spells f (ofChar '#' :: digits ++ [ofChar '#']) (.atom (.bytes digits))
  | binary {digits : Text} (h : ∀ c ∈ digits, c.isBinaryDigit ∨ c = '_') :
      Spells f (ofChar '0' :: ofChar 'b' :: digits) (.atom (.integer .binary digits))
  | hexadecimal {digits : Text} (h : ∀ c ∈ digits, c.isHexDigit ∨ c = '_') :
      Spells f (ofChar '0' :: ofChar 'x' :: digits) (.atom (.integer .hexadecimal digits))
  | decimal {whole : Text} (h : Whole whole) : Spells f whole (.atom (.integer .decimal whole))
  | fraction {whole part : Text} (h : Whole whole) (hpart : ∀ c ∈ part, c.isDigit) :
      Spells f (whole ++ ofChar '.' :: part) (.atom (.fraction whole part))
  | identifier {c : CodePoint} {more : Text} (hc : c.startsIdentifier f.unicode)
      (hsign : f.bytes → c ≠ '#') (h : ∀ d ∈ more, d.continuesIdentifier f.unicode) :
      Spells f (c :: more) (.atom (.identifier (c :: more)))

/-- The code point goes on with the digits before a fraction mark, or turns a zero into a
marker. -/
def ExtendsWhole (whole : Text) (c : CodePoint) : Prop :=
  if whole = [ofChar '0'] then c = 'b' ∨ c = 'x' ∨ c.isDigit else c.isDigit ∨ c = '_'

/-- A lexeme directly before the code point would take it in. -/
def Extends (f : Features) : Lexeme → CodePoint → Prop
  | .opening _, _ => False
  | .closing _, _ => False
  | .comment _, c => c ≠ '\n'
  | .atom (.string _ _), _ => False
  | .atom (.bytes _), _ => False
  | .atom (.integer .binary _), c => c.isBinaryDigit ∨ c = '_'
  | .atom (.integer .hexadecimal _), c => c.isHexDigit ∨ c = '_'
  | .atom (.integer .decimal whole), c => ExtendsWhole whole c ∨ c = '.'
  | .atom (.fraction _ _), c => c.isDigit
  | .atom (.identifier _), c => c.continuesIdentifier f.unicode

/-- No code point that follows goes on with the lexeme. -/
def Ends (f : Features) (lexeme : Lexeme) (rest : Text) : Prop :=
  ∀ c ∈ rest.head?, ¬ Extends f lexeme c

/-- Blanks, then lexemes that each end where they do, with blanks after each. -/
inductive Written (f : Features) : Text → List Lexeme → Prop
  | blank {blanks : Text} (h : ∀ c ∈ blanks, c.isBlank) : Written f blanks []
  | lexeme {blanks spelling rest : Text} {lexeme : Lexeme} {lexemes : List Lexeme}
      (hblanks : ∀ c ∈ blanks, c.isBlank) (h : Spells f spelling lexeme)
      (hends : Ends f lexeme rest) (hrest : Written f rest lexemes) :
      Written f (blanks ++ spelling ++ rest) (lexeme :: lexemes)

theorem Written.blanks_append {f : Features} {blanks text : Text} {lexemes : List Lexeme}
    (hblanks : ∀ c ∈ blanks, c.isBlank) (h : Written f text lexemes) :
    Written f (blanks ++ text) lexemes := by
  cases h with
  | blank h => exact .blank (List.forall_mem_append.mpr ⟨hblanks, h⟩)
  | @lexeme more spelling rest lexeme lexemes hmore h hends hrest =>
    have hall : ∀ c ∈ blanks ++ more, c.isBlank := List.forall_mem_append.mpr ⟨hblanks, hmore⟩
    simpa [List.append_assoc] using Written.lexeme hall h hends hrest

theorem Spells.eq_spelling {f : Features} {text : Text} {lexeme : Lexeme}
    (h : Spells f text lexeme) : text = lexeme.spelling := by
  cases h with
  | opening => rfl
  | closing => rfl
  | comment => rfl
  | string => rfl
  | bytes => rfl
  | binary => rfl
  | hexadecimal => rfl
  | decimal => rfl
  | fraction => simp [Lexeme.spelling, Atom.spelling, Text.ofString]
  | identifier => rfl

end SExpression
