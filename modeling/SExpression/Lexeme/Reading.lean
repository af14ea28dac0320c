import SExpression.Features
import SExpression.Lexeme.Class

/-! The lexical rules, on code points alone: what stands at the start of a text, how much of
it belongs to that, and whether more text could still change the answer. -/
namespace SExpression

/-- What a text starts with. -/
inductive Found where
  /-- It ends by itself, whatever follows. -/
  | closed (lexeme : Lexeme)
  /-- It ends before the first code point that cannot extend it. -/
  | run (lexeme : Lexeme)
  /-- The text ends inside a string. -/
  | unclosedString
  /-- The text ends inside a bytes literal. -/
  | unclosedBytes
  /-- A bytes literal is broken off before `c`. -/
  | brokenBytes (c : CodePoint)
  /-- Nothing starts with `c`. -/
  | unknown (c : CodePoint)
deriving DecidableEq

/-- A text read as `taken`, which makes up what was found, and the `rest`. -/
structure Reading where
  found : Found
  taken : Text
  rest : Text
deriving DecidableEq

namespace Shape

def ofOpening? (c : CodePoint) : Option Shape :=
  all.find? fun shape => shape.opening = c

def ofClosing? (c : CodePoint) : Option Shape :=
  all.find? fun shape => shape.closing = c

end Shape

namespace Reading

/-- `start`, and after it as many of `cs` as `extends` allows. -/
def longest (start : Text) (extends? : CodePoint → Bool) (cs : Text) (lexeme : Text → Lexeme) :
    Reading :=
  ⟨.run (lexeme (cs.takeWhile extends?)), start ++ cs.takeWhile extends?, cs.dropWhile extends?⟩

/-- The body of a string and what follows its closing quote. A backslash takes the code point
after it along, so that a quote there closes nothing. -/
def splitString : Text → Option (Text × Text)
  | [] => none
  | c :: cs =>
    if c = '"' then some ([], cs)
    else if c = '\\' then
      match cs with
      | [] => none
      | d :: ds => (splitString ds).map fun (body, rest) => (c :: d :: body, rest)
    else (splitString cs).map fun (body, rest) => (c :: body, rest)

def string (quote : CodePoint) (cs : Text) : Reading :=
  match splitString cs with
  | none => ⟨.unclosedString, quote :: cs, []⟩
  | some (body, rest) =>
    ⟨.closed (.atom (.string (body.contains (CodePoint.ofChar '\\')) body)),
      quote :: body ++ [quote], rest⟩

def bytes (sign : CodePoint) (cs : Text) : Reading :=
  let digits := cs.takeWhile CodePoint.isHexDigit
  match cs.dropWhile CodePoint.isHexDigit with
  | [] => ⟨.unclosedBytes, sign :: digits, []⟩
  | c :: rest =>
    if c = '#' then ⟨.closed (.atom (.bytes digits)), sign :: digits ++ [c], rest⟩
    else ⟨.brokenBytes c, sign :: digits, c :: rest⟩

/-- The base that `0b` and `0x` select, and what follows the marker. -/
def marked? (digit : CodePoint) : Text → Option (Base × Text)
  | [] => none
  | c :: cs =>
    if digit = '0' ∧ c = 'b' then some (.binary, cs)
    else if digit = '0' ∧ c = 'x' then some (.hexadecimal, cs)
    else none

/-- The digits and separators after the first digit. A zero that no digit follows stands alone. -/
def splitWhole (digit : CodePoint) (cs : Text) : Text × Text :=
  if digit = '0' && !cs.head?.any CodePoint.isDigit then ([], cs)
  else (cs.takeWhile fun c => c.isDigit || c = '_', cs.dropWhile fun c => c.isDigit || c = '_')

def number (digit : CodePoint) (cs : Text) : Reading :=
  match marked? digit cs with
  | some (base, rest) =>
    longest base.marker (fun c => base.isDigit c || c = '_') rest fun digits =>
      .atom (.integer base digits)
  | none =>
    let whole := digit :: (splitWhole digit cs).1
    match (splitWhole digit cs).2 with
    | [] => ⟨.run (.atom (.integer .decimal whole)), whole, []⟩
    | c :: rest =>
      if c = '.' then
        longest (whole ++ [c]) CodePoint.isDigit rest fun part => .atom (.fraction whole part)
      else ⟨.run (.atom (.integer .decimal whole)), whole, c :: rest⟩

/-- Reads what starts with `c` and goes on in `cs`. -/
def ofText (f : Features) (c : CodePoint) (cs : Text) : Reading :=
  match (Shape.ofOpening? c).filter f.admits, (Shape.ofClosing? c).filter f.admits with
  | some shape, _ => ⟨.closed (.opening shape), [c], cs⟩
  | none, some shape => ⟨.closed (.closing shape), [c], cs⟩
  | none, none =>
    if c = ';' then longest [c] (· ≠ '\n') cs fun more => .comment (c :: more)
    else if c = '"' then string c cs
    else if f.bytes && c = '#' then bytes c cs
    else if c.isDigit then number c cs
    else if c.startsIdentifier f.unicode then
      longest [c] (CodePoint.continuesIdentifier f.unicode) cs fun more =>
        .atom (.identifier (c :: more))
    else ⟨.unknown c, [c], cs⟩

@[simp] theorem longest_taken_append_rest (start : Text) (extends? : CodePoint → Bool) (cs : Text)
    (lexeme : Text → Lexeme) :
    (longest start extends? cs lexeme).taken ++ (longest start extends? cs lexeme).rest =
      start ++ cs := by
  simp [longest]

theorem splitString_eq_some {cs body rest : Text} (h : splitString cs = some (body, rest)) :
    cs = body ++ CodePoint.ofChar '"' :: rest := by
  fun_induction splitString cs generalizing body with
  | case1 => simp at h
  | case2 => simp_all
  | case3 => simp_all
  | case4 d ds _ ih =>
    simp only [Option.map_eq_some_iff, Prod.mk.injEq, Prod.exists] at h
    obtain ⟨b, r, hr, rfl, rfl⟩ := h
    simp [ih hr]
  | case5 c cs _ _ ih =>
    simp only [Option.map_eq_some_iff, Prod.mk.injEq, Prod.exists] at h
    obtain ⟨b, r, hr, rfl, rfl⟩ := h
    simp [ih hr]

theorem marked?_eq_some {digit : CodePoint} {cs rest : Text} {base : Base}
    (h : marked? digit cs = some (base, rest)) : digit :: cs = base.marker ++ rest := by
  cases cs with
  | nil => simp [marked?] at h
  | cons c cs =>
    simp only [marked?] at h
    split at h
    · next marks =>
      obtain ⟨rfl, rfl⟩ := marks
      cases h; rfl
    · split at h
      · next marks =>
        obtain ⟨rfl, rfl⟩ := marks
        cases h; rfl
      · cases h

@[simp] theorem splitWhole_append (digit : CodePoint) (cs : Text) :
    (splitWhole digit cs).1 ++ (splitWhole digit cs).2 = cs := by
  unfold splitWhole; split <;> simp

/-- Reading splits the text and loses nothing. -/
theorem ofText_taken_append_rest (f : Features) (c : CodePoint) (cs : Text) :
    (ofText f c cs).taken ++ (ofText f c cs).rest = c :: cs := by
  have number_eq : (number c cs).taken ++ (number c cs).rest = c :: cs := by
    simp only [number]
    split
    · next base rest h => simp [marked?_eq_some h]
    · have whole := splitWhole_append c cs
      split
      · next h => simp_all
      · next d rest h => split <;> simp_all
  have string_eq (h : c = '"') : (string c cs).taken ++ (string c cs).rest = c :: cs := by
    simp only [string]
    split
    · simp
    · next body rest hs => simp [h, splitString_eq_some hs]
  have bytes_eq : (bytes c cs).taken ++ (bytes c cs).rest = c :: cs := by
    have split_eq := List.takeWhile_append_dropWhile (p := CodePoint.isHexDigit) (l := cs)
    simp only [bytes]
    split
    · next h => simp_all
    · next d rest h => split <;> simp_all
  simp only [ofText]
  split
  · simp
  · simp
  · split
    · simp
    · split
      · next h => exact string_eq h
      · split
        · exact bytes_eq
        · split
          · exact number_eq
          · split <;> simp

theorem ofText_taken_ne_nil (f : Features) (c : CodePoint) (cs : Text) :
    (ofText f c cs).taken ≠ [] := by
  have marker_ne {base rest} (h : marked? c cs = some (base, rest)) : base.marker ≠ [] := by
    cases cs <;> simp only [marked?] at h
    · cases h
    · split at h
      · cases h; decide
      · split at h
        · cases h; decide
        · cases h
  simp only [ofText, string, bytes, number, longest]
  repeat' split
  all_goals simp_all

theorem ofText_rest_length_le (f : Features) (c : CodePoint) (cs : Text) :
    (ofText f c cs).rest.length ≤ cs.length := by
  have whole := congrArg List.length (ofText_taken_append_rest f c cs)
  have some_taken := List.length_pos_iff.mpr (ofText_taken_ne_nil f c cs)
  simp only [List.length_append, List.length_cons] at whole
  omega

end Reading
end SExpression
