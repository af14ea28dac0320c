import SExpression.Text.Integer
import SExpression.Toml.Value

/-! Strings, numbers, dates and times of TOML. Every reader answers what it has read and the
text after it. -/
namespace SExpression.Toml

def isBlank (c : CodePoint) : Bool :=
  c = ' ' || c = '\t'

def isFiller (c : CodePoint) : Bool :=
  isBlank c || c = '\n'

/-- Controls are refused in strings and comments, save tabs, and newlines where a text may
have several lines. -/
def isRefused (long : Bool) (c : CodePoint) : Bool :=
  (c.value < 0x20 || c.value = 0x7F) && c ≠ '\t' && !(long && c = '\n')

def skipPrefix? (start : Text) (text : Text) : Option Text :=
  if start.isPrefixOf text then some (text.drop start.length) else none

section strings

/-- Up to two quotes more than the three that close a long string belong to it. -/
def spareQuotes (quote : CodePoint) : Text → Text × Text
  | [] => ([], [])
  | [c] => if c = quote then ([c], []) else ([], [c])
  | c :: d :: cs =>
    if c = quote then if d = quote then ([c, d], cs) else ([c], d :: cs) else ([], c :: d :: cs)

def literal : Text → Option (Text × Text)
  | [] => none
  | c :: cs =>
    if c = '\'' then some ([], cs)
    else if isRefused false c then none
    else (literal cs).map fun (body, rest) => (c :: body, rest)

def longLiteral (text : Text) : Option (Text × Text) :=
  match skipPrefix? "'''" text with
  | some rest => some (spareQuotes '\'' rest)
  | none =>
    match text with
    | [] => none
    | c :: cs =>
      if isRefused true c then none
      else (longLiteral cs).map fun (body, rest) => (c :: body, rest)
termination_by text.length

def simpleEscape? (c : CodePoint) : Option CodePoint :=
  if c = 'b' then some (CodePoint.ofChar '\x08')
  else if c = 't' then some (CodePoint.ofChar '\t')
  else if c = 'n' then some (CodePoint.ofChar '\n')
  else if c = 'f' then some (CodePoint.ofChar '\x0c')
  else if c = 'r' then some (CodePoint.ofChar '\r')
  else if c = '"' ∨ c = '\\' then some c
  else none

def hexWidth? (c : CodePoint) : Option Nat :=
  if c = 'u' then some 4 else if c = 'U' then some 8 else none

def hexScalar? (width : Nat) (digits : Text) : Option CodePoint :=
  let value := digits.foldl (fun n c => n * 16 + c.digitValue) 0
  if h : digits.length = width ∧ digits.all CodePoint.isHexDigit ∧
      (value < 0xD800 ∨ 0xDFFF < value ∧ value < 0x110000) then
    some ⟨value, by omega⟩
  else none

def basic : Text → Option (Text × Text)
  | [] => none
  | c :: cs =>
    if c = '"' then some ([], cs)
    else if c = '\\' then
      match cs with
      | [] => none
      | e :: es =>
        match simpleEscape? e, hexWidth? e with
        | some d, _ => (basic es).map fun (body, rest) => (d :: body, rest)
        | none, some width =>
          (hexScalar? width (es.take width)).bind fun d =>
            (basic (es.drop width)).map fun (body, rest) => (d :: body, rest)
        | none, none => none
    else if isRefused false c then none
    else (basic cs).map fun (body, rest) => (c :: body, rest)
termination_by text => text.length
decreasing_by all_goals (simp only [List.length_drop, List.length_cons]; omega)

/-- A backslash at the end of a line drops the break and all blanks and breaks after it. -/
def longBasic (text : Text) : Option (Text × Text) :=
  match skipPrefix? "\"\"\"" text with
  | some rest => some (spareQuotes '"' rest)
  | none =>
    match text with
    | [] => none
    | c :: cs =>
      if c = '\\' then
        match cs with
        | [] => none
        | e :: es =>
          match simpleEscape? e, hexWidth? e with
          | some d, _ => (longBasic es).map fun (body, rest) => (d :: body, rest)
          | none, some width =>
            (hexScalar? width (es.take width)).bind fun d =>
              (longBasic (es.drop width)).map fun (body, rest) => (d :: body, rest)
          | none, none =>
            if ((e :: es).dropWhile isBlank).head? = some (CodePoint.ofChar '\n') then
              longBasic (es.dropWhile isFiller)
            else none
      else if isRefused true c then none
      else (longBasic cs).map fun (body, rest) => (c :: body, rest)
termination_by text.length
decreasing_by
  · simp only [List.length_cons]; omega
  · simp only [List.length_drop, List.length_cons]; omega
  · have := (List.dropWhile_suffix isFiller (l := es)).length_le
    simp only [List.length_cons]
    omega
  · simp only [List.length_cons]; omega

def string? (text : Text) : Option (Option (Text × Text)) :=
  match skipPrefix? "\"\"\"" text, skipPrefix? "'''" text with
  | some rest, _ => some (longBasic ((skipPrefix? "\n" rest).getD rest))
  | none, some rest => some (longLiteral ((skipPrefix? "\n" rest).getD rest))
  | none, none =>
    match text with
    | [] => none
    | c :: cs =>
      if c = '"' then some (basic cs) else if c = '\'' then some (literal cs) else none

end strings

section numbers

/-- Digits with single separators between them, as many as there are. -/
def moreDigits (isDigit : CodePoint → Bool) : Text → Text × Text
  | [] => ([], [])
  | [c] => if isDigit c then ([c], []) else ([], [c])
  | c :: d :: cs =>
    if isDigit c then
      let (more, rest) := moreDigits isDigit (d :: cs)
      (c :: more, rest)
    else if c = '_' && isDigit d then
      let (more, rest) := moreDigits isDigit cs
      (d :: more, rest)
    else ([], c :: d :: cs)

def digits (isDigit : CodePoint → Bool) : Text → Option (Text × Text)
  | [] => none
  | c :: cs =>
    if isDigit c then
      let (more, rest) := moreDigits isDigit cs
      some (c :: more, rest)
    else none

def ofDigits (radix : Nat) (digits : Text) : Int :=
  Int.ofNat (digits.foldl (fun n c => n * radix + c.digitValue) 0)

def isOctalDigit (c : CodePoint) : Bool :=
  c.isBetween '0' '7'

def based? (start : Text) (radix : Nat) (isDigit : CodePoint → Bool) (text : Text) :
    Option (Value × Text) := do
  let (found, rest) ← digits isDigit (← skipPrefix? start text)
  return (.integer (ofDigits radix found), rest)

def whole? (text : Text) : Option (Text × Text) :=
  match text with
  | [] => none
  | c :: cs => if c = '0' then some ([c], cs) else digits CodePoint.isDigit (c :: cs)

def sign (text : Text) : Text × Text :=
  match text with
  | [] => ([], [])
  | c :: cs => if c = '+' ∨ c = '-' then ([c], cs) else ([], c :: cs)

/-- The text after a fraction and an exponent, where there are any. -/
def skipFraction (text : Text) : Text :=
  match (skipPrefix? "." text).bind (digits CodePoint.isDigit) with
  | some (_, rest) => rest
  | none => text

def skipExponent (text : Text) : Text :=
  match text with
  | [] => []
  | c :: cs =>
    if c = 'e' ∨ c = 'E' then
      match digits CodePoint.isDigit (sign cs).2 with
      | some (_, rest) => rest
      | none => c :: cs
    else c :: cs

def spelled (text rest : Text) : Text :=
  text.take (text.length - rest.length)

/-- Only integers are limited in their digits. -/
def decimal? (text : Text) : Option (Except ReadError (Value × Text)) := do
  let (found, rest) ← whole? (sign text).2
  let beyond := skipExponent (skipFraction rest)
  if beyond.length < rest.length then return .ok (.float (spelled text beyond), beyond)
  if Text.mostDigits < found.length then return .error (.longInteger found.length)
  let value := ofDigits 10 found
  return .ok (.integer (if (sign text).1 = "-" then -value else value), rest)

def infinite? (text : Text) : Option (Value × Text) := do
  let rest := (sign text).2
  let beyond ← skipPrefix? "inf" rest <|> skipPrefix? "nan" rest
  return (.float (spelled text beyond), beyond)

def number? (text : Text) : Option (Except ReadError (Value × Text)) :=
  let inBase := based? "0x" 16 CodePoint.isHexDigit text <|>
    based? "0b" 2 CodePoint.isBinaryDigit text <|> based? "0o" 8 isOctalDigit text
  inBase.map .ok <|> decimal? text

end numbers

section moments

/-- Exactly `count` digits, with a value between the bounds. -/
def field (count least most : Nat) (text : Text) : Option (Nat × Text) :=
  let found := text.take count
  let value := (ofDigits 10 found).toNat
  if found.length = count ∧ found.all CodePoint.isDigit ∧ least ≤ value ∧ value ≤ most then
    some (value, text.drop count)
  else none

def skipDecimals (text : Text) : Text :=
  match skipPrefix? "." text with
  | some rest => if rest.head?.any CodePoint.isDigit then rest.dropWhile CodePoint.isDigit else text
  | none => text

def skipTime? (text : Text) : Option Text := do
  let (_, text) ← field 2 0 23 text
  let (_, text) ← field 2 0 59 (← skipPrefix? ":" text)
  let (_, text) ← field 2 0 59 (← skipPrefix? ":" text)
  return skipDecimals text

def skipOffset (text : Text) : Text :=
  match text with
  | [] => []
  | c :: cs =>
    if c = 'Z' ∨ c = 'z' then cs
    else if c = '+' ∨ c = '-' then
      (do
        let (_, text) ← field 2 0 23 cs
        let (_, text) ← field 2 0 59 (← skipPrefix? ":" text)
        return text).getD (c :: cs)
    else c :: cs

def daysIn (year month : Nat) : Nat :=
  if month = 2 then
    if year % 4 = 0 ∧ (year % 100 ≠ 0 ∨ year % 400 = 0) then 29 else 28
  else if month = 4 ∨ month = 6 ∨ month = 9 ∨ month = 11 then 30
  else 31

/-- Whether the day is in the calendar, and what follows the date. -/
def date? (text : Text) : Option (Bool × Text) := do
  let (year, text) ← field 4 0 9999 text
  let (month, text) ← field 2 1 12 (← skipPrefix? "-" text)
  let (day, text) ← field 2 1 31 (← skipPrefix? "-" text)
  return (decide (1 ≤ year ∧ day ≤ daysIn year month), text)

/-- A time that follows its date, with an offset if there is one. -/
def skipTimeOfDay (text : Text) : Text :=
  match text with
  | [] => []
  | c :: cs =>
    if c = 'T' ∨ c = 't' ∨ c = ' ' then ((skipTime? cs).map skipOffset).getD (c :: cs) else c :: cs

def moment? (text : Text) : Option (Option (Value × Text)) :=
  match date? text with
  | some (true, rest) =>
    some (some (.moment (spelled text (skipTimeOfDay rest)), skipTimeOfDay rest))
  | some (false, _) => some none
  | none => (skipTime? text).map fun rest => some (.moment (spelled text rest), rest)

end moments

def boolean? (text : Text) : Option (Value × Text) :=
  ((skipPrefix? "true" text).map fun rest => (.boolean true, rest)) <|>
    (skipPrefix? "false" text).map fun rest => (.boolean false, rest)

/-- Any value that holds no others. -/
def scalar (text : Text) : Except ReadError (Value × Text) :=
  match string? text with
  | some read => valid (read.map fun (value, rest) => (.string value, rest))
  | none =>
    match boolean? text with
    | some read => .ok read
    | none =>
      match moment? text, number? text with
      | some read, _ => valid read
      | none, some read => read
      | none, none => valid (infinite? text)

end SExpression.Toml
