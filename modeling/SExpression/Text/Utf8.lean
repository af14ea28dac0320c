import SExpression.Text.Numeral

/-! UTF-8. A code point is written in one to four bytes; reading refuses what is cut off,
overlong, out of range or a surrogate, and says which. -/
namespace SExpression

abbrev Bytes := List UInt8

namespace CodePoint

/-- Surrogates are written in three bytes too, which reading then refuses. -/
def encode (c : CodePoint) : Bytes :=
  let n := c.value
  if n < 0x80 then [n.toUInt8]
  else if n < 0x800 then [(0xC0 + n / 64).toUInt8, (0x80 + n % 64).toUInt8]
  else if n < 0x10000 then
    [(0xE0 + n / 4096).toUInt8, (0x80 + n / 64 % 64).toUInt8, (0x80 + n % 64).toUInt8]
  else
    [(0xF0 + n / 262144).toUInt8, (0x80 + n / 4096 % 64).toUInt8, (0x80 + n / 64 % 64).toUInt8,
      (0x80 + n % 64).toUInt8]

end CodePoint

namespace Text

def encode (text : Text) : Bytes :=
  text.flatMap CodePoint.encode

end Text

namespace Utf8

inductive DecodeError where
  | pastEnd
  | incomplete (lead : UInt8)
  | invalidSequence
  | invalidContinuation
deriving DecidableEq

def DecodeError.message : DecodeError → Text
  | .pastEnd => "read past the end of the data stream"
  | .incomplete lead =>
    "incomplete UTF-8 sequence starting with byte 0x" ++ Text.hexOfNat 2 lead.toNat
  | .invalidSequence => "invalid UTF-8 sequence"
  | .invalidContinuation => "invalid UTF-8 continuation byte"

/-- How many bytes a sequence has that starts with `lead`; none where nothing starts with it. -/
def sequenceLength (lead : UInt8) : Nat :=
  if lead < 0x80 then 1
  else if lead < 0xC2 then 0
  else if lead < 0xE0 then 2
  else if lead < 0xF0 then 3
  else if lead < 0xF5 then 4
  else 0

theorem sequenceLength_le (lead : UInt8) : sequenceLength lead ≤ 4 := by
  unfold sequenceLength; split <;> (try split) <;> (try split) <;> (try split) <;>
    (try split) <;> omega

def isContinuation (b : UInt8) : Bool :=
  0x80 ≤ b && b < 0xC0

/-- The bits of the lead byte of a sequence of `width` bytes that belong to the value. -/
def leadBits (width : Nat) (lead : UInt8) : Nat :=
  match width with
  | 2 => lead.toNat % 32
  | 3 => lead.toNat % 16
  | 4 => lead.toNat % 8
  | _ => lead.toNat

/-- The least value written in `width` bytes; a smaller one is overlong. -/
def leastValue : (width : Nat) → Nat
  | 2 => 0x80
  | 3 => 0x800
  | 4 => 0x10000
  | _ => 0

/-- The value that `width` bytes carry, if they are the right ones for it. -/
def scalar? (width value : Nat) : Option CodePoint :=
  if h : leastValue width ≤ value ∧ (value < 0xD800 ∨ 0xDFFF < value ∧ value < 0x110000) then
    some ⟨value, by omega⟩
  else none

/-- Reads the sequence that starts with `lead`: its code point and its length. -/
def decodeFrom (lead : UInt8) (tail : Bytes) : Except DecodeError (CodePoint × Nat) :=
  let width := sequenceLength lead
  let more := tail.take (width - 1)
  if width = 0 then .error .invalidSequence
  else if more.length + 1 < width then .error (.incomplete lead)
  else if !more.all isContinuation then .error .invalidContinuation
  else
    match scalar? width (more.foldl (fun n b => n * 64 + b.toNat % 64) (leadBits width lead)) with
    | none => .error .invalidSequence
    | some c => .ok (c, width)

/-- Reads the code point at `index`; nothing is there exactly at the end. -/
def decodeAt? (data : Bytes) (index : Nat) : Except DecodeError (Option (CodePoint × Nat)) :=
  if data.length < index then .error .pastEnd
  else
    match data.drop index with
    | [] => .ok none
    | lead :: tail => (decodeFrom lead tail).map some

theorem width_pos_of_decodeFrom {lead : UInt8} {tail : Bytes} {c : CodePoint} {width : Nat}
    (h : decodeFrom lead tail = .ok (c, width)) : 0 < width := by
  simp only [decodeFrom] at h
  split at h
  · cases h
  · split at h
    · cases h
    · split at h
      · cases h
      · split at h
        · cases h
        · cases h; omega

/-- Bytes read as text up to their end or to the first sequence that is not valid. -/
structure Decoded where
  text : Text := []
  fault : Option DecodeError := none
deriving DecidableEq

def decode : Bytes → Decoded
  | [] => {}
  | lead :: tail =>
    match decodeFrom lead tail with
    | .error e => { fault := some e }
    | .ok (c, width) =>
      let later := decode (tail.drop (width - 1))
      { later with text := c :: later.text }
termination_by data => data.length
decreasing_by simp only [List.length_drop, List.length_cons]; omega

/-- How many bytes at the start of `lead :: tail` stand for one replacement: the longest start
of a sequence that some valid sequence has, or else the lead byte alone. -/
def brokenLength (lead : UInt8) (tail : Bytes) : Nat :=
  let second : UInt8 × UInt8 :=
    if lead = 0xE0 then (0xA0, 0xBF) else if lead = 0xED then (0x80, 0x9F)
    else if lead = 0xF0 then (0x90, 0xBF) else if lead = 0xF4 then (0x80, 0x8F)
    else (0x80, 0xBF)
  match tail.take (sequenceLength lead - 1) with
  | [] => 1
  | b :: bs =>
    if second.1 ≤ b && b ≤ second.2 then 2 + (bs.takeWhile isContinuation).length else 1

/-- Reads bytes with U+FFFD in the place of each broken sequence. -/
def decodeLossy : Bytes → Text
  | [] => []
  | lead :: tail =>
    match decodeFrom lead tail with
    | .error _ => CodePoint.ofChar '\uFFFD' :: decodeLossy (tail.drop (brokenLength lead tail - 1))
    | .ok (c, width) => c :: decodeLossy (tail.drop (width - 1))
termination_by data => data.length
decreasing_by all_goals (simp only [List.length_drop, List.length_cons]; omega)

end Utf8
end SExpression
