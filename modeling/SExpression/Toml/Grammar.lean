import SExpression.Toml.Scalar

/-! The statements of a TOML document. -/
namespace SExpression.Toml

inductive Statement where
  | header (key : Key)
  /-- The header of one more table in an array of tables. -/
  | item (key : Key)
  | pair (key : Key) (value : Value)

def isInLine (c : CodePoint) : Bool :=
  c ≠ '\n'

/-- The text at the end of a comment's line, or as it was where no comment starts. -/
def skipComment : Text → Option Text
  | [] => some []
  | c :: cs =>
    if c = '#' then
      if (cs.takeWhile isInLine).any (isRefused false) then none else some (cs.dropWhile isInLine)
    else some (c :: cs)

/-- Skips blanks, line breaks and comments. Each comment takes one unit of fuel. -/
def skipFiller : (fuel : Nat) → Text → Option Text
  | 0, _ => none
  | fuel + 1, text =>
    let text := text.dropWhile isFiller
    if text.head? = some (CodePoint.ofChar '#') then (skipComment text).bind (skipFiller fuel)
    else some text

def isBareKey (c : CodePoint) : Bool :=
  c.isDigit || c.isBetween 'a' 'z' || c.isBetween 'A' 'Z' || c = '-' || c = '_'

def keyPart : Text → Option (Text × Text)
  | [] => none
  | c :: cs =>
    if c = '"' then basic cs
    else if c = '\'' then literal cs
    else if isBareKey c then some (c :: cs.takeWhile isBareKey, cs.dropWhile isBareKey)
    else none

/-- Each part takes one unit of fuel. -/
def key : (fuel : Nat) → Text → Option (Key × Text)
  | 0, _ => none
  | fuel + 1, text =>
    match keyPart text with
    | none => none
    | some (part, rest) =>
      let rest := rest.dropWhile isBlank
      match skipPrefix? "." rest with
      | none => some ([part], rest)
      | some more => (key fuel (more.dropWhile isBlank)).map fun (parts, rest) =>
          (part :: parts, rest)

mutual

/-- Every value and every item takes one unit of fuel. -/
def value : (fuel : Nat) → Text → Except ReadError (Value × Text)
  | 0, _ => .error .invalid
  | fuel + 1, text =>
    match skipPrefix? "[" text, skipPrefix? "\x7b" text with
    | some rest, _ => (items fuel rest).map fun (found, rest) => (.array found, rest)
    | none, some rest =>
      let rest := rest.dropWhile isBlank
      match skipPrefix? "\x7d" rest with
      | some rest => .ok (.table [], rest)
      | none => do
        let (found, rest) := pairs fuel rest
        return (.table (← valid (Table.ofPairs found)), ← rest)
    | none, none => scalar text

/-- The items of an array up to its end. The last may be followed by a comma. -/
def items : (fuel : Nat) → Text → Except ReadError (List Value × Text)
  | 0, _ => .error .invalid
  | fuel + 1, text => do
    let text ← valid (skipFiller (fuel + 1) text)
    match skipPrefix? "]" text with
    | some rest => return ([], rest)
    | none =>
      let (first, rest) ← value fuel text
      let rest ← valid (skipFiller (fuel + 1) rest)
      match skipPrefix? "]" rest, skipPrefix? "," rest with
      | some rest, _ => return ([first], rest)
      | none, some rest =>
        let (others, rest) ← items fuel rest
        return (first :: others, rest)
      | none, none => .error .invalid

def pair : (fuel : Nat) → Text → Except ReadError ((Key × Value) × Text)
  | 0, _ => .error .invalid
  | fuel + 1, text => do
    let (name, rest) ← valid (key (fuel + 1) text)
    let (found, rest) ← value fuel ((← valid (skipPrefix? "=" rest)).dropWhile isBlank)
    return ((name, found), rest)

/-- The pairs of a table between braces as far as they can be read, and then the text after the
table or why no more can be read. -/
def pairs : (fuel : Nat) → Text → List (Key × Value) × Except ReadError Text
  | 0, _ => ([], .error .invalid)
  | fuel + 1, text =>
    match pair fuel text with
    | .error e => ([], .error e)
    | .ok (first, rest) =>
      let rest := rest.dropWhile isBlank
      match skipPrefix? "\x7d" rest, skipPrefix? "," rest with
      | some rest, _ => ([first], .ok rest)
      | none, some rest =>
        let (others, rest) := pairs fuel (rest.dropWhile isBlank)
        (first :: others, rest)
      | none, none => ([first], .error .invalid)

end

/-- The statement at the start of a line, if there is one before a comment or the end. -/
def statement? (fuel : Nat) (text : Text) : Except ReadError (Option Statement × Text) :=
  match text with
  | [] => .ok (none, [])
  | c :: cs =>
    if c = '\n' ∨ c = '#' then .ok (none, c :: cs)
    else if c = '[' then
      match skipPrefix? "[" cs with
      | some rest => do
        let (name, rest) ← valid (key fuel (rest.dropWhile isBlank))
        return (some (.item name), ← valid (skipPrefix? "]]" rest))
      | none => do
        let (name, rest) ← valid (key fuel (cs.dropWhile isBlank))
        return (some (.header name), ← valid (skipPrefix? "]" rest))
    else do
      let ((name, found), rest) ← pair fuel (c :: cs)
      return (some (.pair name found), rest)

/-- The statements as far as they can be read, and then why no more can be, unless the text has
come to its end. Each line takes one unit of fuel. -/
def statements : (fuel : Nat) → Text → List Statement × Option ReadError
  | 0, _ => ([], some .invalid)
  | fuel + 1, text =>
    match statement? (fuel + 1) (text.dropWhile isBlank) with
    | .error e => ([], some e)
    | .ok (found, rest) =>
      match skipComment (rest.dropWhile isBlank) with
      | none => (found.toList, some .invalid)
      | some [] => (found.toList, none)
      | some (c :: cs) =>
        if c = '\n' then
          let (others, fault) := statements fuel cs
          (found.toList ++ others, fault)
        else (found.toList, some .invalid)

def unifyBreaks : Text → Text
  | c :: d :: cs => if c = '\r' ∧ d = '\n' then d :: unifyBreaks cs else c :: unifyBreaks (d :: cs)
  | text => text

end SExpression.Toml
