import SExpression.Lexeme.Reading
import SExpression.Source
import SExpression.Token.Error

/-! A cursor in a source reads one token at a time. After an error it stands where reading
broke off and can go on from there. -/
namespace SExpression

/-- What is left of a source: the code points that still decode, and the fault after them, if
decoding ends in one. -/
structure Cursor where
  rest : Text
  fault : Option Utf8.DecodeError := none
  offset : Nat := 0
  position : Position := {}
deriving DecidableEq

namespace Cursor

def ofBytes (bytes : Bytes) : Cursor :=
  { rest := (Utf8.decode bytes).text, fault := (Utf8.decode bytes).fault }

/-- Passes over `taken` and leaves `rest`. -/
def pass (cursor : Cursor) (taken rest : Text) : Cursor :=
  { cursor with
    rest
    offset := cursor.offset + taken.encode.length
    position := cursor.position.advanceOver taken }

def skipBlanks (cursor : Cursor) : Cursor :=
  cursor.pass (cursor.rest.takeWhile CodePoint.isBlank) (cursor.rest.dropWhile CodePoint.isBlank)

/-- The error that looking ahead meets, where nothing is left before the fault. -/
def blocked? (cursor : Cursor) : Option TokenError :=
  match cursor.rest with
  | [] => cursor.fault.map (.badData · cursor.offset cursor.position)
  | _ :: _ => none

/-- What was read between two cursors. Whatever could still go on has to see what follows. -/
def judge (start stop : Cursor) : Found → Except TokenError Lexeme
  | .closed lexeme => .ok lexeme
  | .run lexeme =>
    match stop.blocked? with
    | some e => .error e
    | none => .ok lexeme
  | .unclosedString =>
    .error (stop.blocked?.getD (.unterminatedString start.position stop.position))
  | .unclosedBytes => .error (stop.blocked?.getD (.unterminatedBytes stop.position))
  | .brokenBytes c => .error (.brokenBytes stop.position c)
  | .unknown c => .error (.unprocessable start.position c)

/-- The next token, comments included; none at the end of the source. -/
def read (f : Features) (cursor : Cursor) : Except TokenError (Option Token) × Cursor :=
  let start := cursor.skipBlanks
  match start.rest with
  | [] =>
    match start.blocked? with
    | some e => (.error e, start)
    | none => (.ok none, start)
  | c :: cs =>
    let reading := Reading.ofText f c cs
    let stop := start.pass reading.taken reading.rest
    ((judge start stop reading.found).map fun lexeme =>
      some ⟨lexeme, start.position, stop.position⟩, stop)

theorem rest_pass (cursor : Cursor) (taken rest : Text) :
    (cursor.pass taken rest).rest = rest := rfl

theorem skipBlanks_rest_length_le (cursor : Cursor) :
    cursor.skipBlanks.rest.length ≤ cursor.rest.length := by
  have whole := congrArg List.length
    (List.takeWhile_append_dropWhile (p := CodePoint.isBlank) (l := cursor.rest))
  simp only [skipBlanks, rest_pass, List.length_append] at *
  omega

theorem read_rest_length_lt {f : Features} {cursor next : Cursor} {token : Token}
    (h : cursor.read f = (.ok (some token), next)) : next.rest.length < cursor.rest.length := by
  have skipped := skipBlanks_rest_length_le cursor
  simp only [read] at h
  split at h
  · split at h <;> simp at h
  · next c cs rest_eq =>
    obtain ⟨_, rfl⟩ := Prod.mk.inj h
    have := Reading.ofText_rest_length_le f c cs
    simp only [rest_eq, rest_pass, List.length_cons] at *
    omega

/-- The next token of those that the features keep. -/
def next (f : Features) (cursor : Cursor) : Except TokenError (Option Token) × Cursor :=
  match _h : cursor.read f with
  | (.ok (some token), later) =>
    if token.lexeme.isComment && !f.comments then later.next f else (.ok (some token), later)
  | result => result
termination_by cursor.rest.length
decreasing_by exact read_rest_length_lt _h

theorem next_rest_length_lt {f : Features} {cursor later : Cursor} {token : Token}
    (h : cursor.next f = (.ok (some token), later)) :
    later.rest.length < cursor.rest.length := by
  fun_induction next f cursor with
  | case1 cursor token later _h _ ih => exact Nat.lt_trans (ih h) (read_rest_length_lt _h)
  | case2 cursor token later _h _ =>
    obtain ⟨_, rfl⟩ := Prod.mk.inj h
    exact read_rest_length_lt _h
  | case3 => exact read_rest_length_lt h

end Cursor

/-- Tokens up to the end or the first error, and where the cursor then stands. -/
structure Tokens where
  tokens : List Token
  error : Option TokenError
  stop : Cursor
deriving DecidableEq

namespace Cursor

def tokens (f : Features) (cursor : Cursor) : Tokens :=
  match _h : cursor.next f with
  | (.error e, later) => ⟨[], some e, later⟩
  | (.ok none, later) => ⟨[], none, later⟩
  | (.ok (some token), later) =>
    let more := later.tokens f
    { more with tokens := token :: more.tokens }
termination_by cursor.rest.length
decreasing_by exact next_rest_length_lt _h

end Cursor
end SExpression
