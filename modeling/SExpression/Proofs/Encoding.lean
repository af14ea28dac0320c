import Mathlib.Tactic
import SExpression.Text.Utf8

/-! UTF-8 is read back as it was written: encoding a text of scalar values and decoding the
bytes gives the text and no fault, and whatever decodes is a scalar value. -/
namespace SExpression

theorem Text.encode_append (a b : Text) : (a ++ b).encode = a.encode ++ b.encode :=
  List.flatMap_append

namespace Utf8

theorem toNat_toUInt8 {n : ℕ} (h : n < 256) : n.toUInt8.toNat = n := by
  simp [Nat.toUInt8, Nat.mod_eq_of_lt h]

theorem sequenceLength_toUInt8 {n : ℕ} (h : n < 256) : sequenceLength n.toUInt8 =
    if n < 0x80 then 1 else if n < 0xC2 then 0 else if n < 0xE0 then 2
      else if n < 0xF0 then 3 else if n < 0xF5 then 4 else 0 := by
  simp only [sequenceLength, UInt8.lt_iff_toNat_lt, toNat_toUInt8 h]
  rfl

/-- The byte that carries six bits after the lead byte. -/
def continuation (bits : ℕ) : UInt8 :=
  (0x80 + bits % 64).toUInt8

theorem toNat_continuation (bits : ℕ) : (continuation bits).toNat = 0x80 + bits % 64 :=
  toNat_toUInt8 (by omega)

@[simp] theorem isContinuation_continuation (bits : ℕ) :
    isContinuation (continuation bits) = true := by
  have h := toNat_continuation bits
  simp only [isContinuation, Bool.and_eq_true, decide_eq_true_eq, UInt8.le_iff_toNat_le,
    UInt8.lt_iff_toNat_lt, h]
  exact ⟨by simp, by simp; omega⟩

@[simp] theorem continuation_bits (bits : ℕ) : (continuation bits).toNat % 64 = bits % 64 := by
  rw [toNat_continuation]
  omega

theorem scalar?_value {width : ℕ} {c : CodePoint} (hw : leastValue width ≤ c.value) :
    scalar? width c.value = if c.IsScalar then some c else none := by
  have hlt := c.value_lt
  have hiff : (leastValue width ≤ c.value ∧
      (c.value < 0xD800 ∨ 0xDFFF < c.value ∧ c.value < 0x110000)) ↔ c.IsScalar := by
    simp [CodePoint.IsScalar, hw, hlt]
  by_cases h : c.IsScalar
  · simp [scalar?, hiff, h]
  · simp [scalar?, hiff, h]

/-- A lead byte with the right number of continuation bytes is read as the value that they
carry together, unless that is a surrogate. -/
theorem decodeFrom_of_continuations (more : List ℕ) {lead : UInt8} {c : CodePoint}
    (hlen : sequenceLength lead = more.length + 1) (hleast : leastValue (more.length + 1) ≤ c.value)
    (hvalue : more.foldl (fun n bits => n * 64 + bits % 64) (leadBits (more.length + 1) lead) =
      c.value) (rest : Bytes) :
    decodeFrom lead (more.map continuation ++ rest) =
      if c.IsScalar then .ok (c, more.length + 1) else .error .invalidSequence := by
  have htake : (more.map continuation ++ rest).take more.length = more.map continuation := by
    rw [List.take_append_of_le_length (by simp), List.take_of_length_le (by simp)]
  have hall : (more.map continuation).all isContinuation = true := by simp
  have hfold : (more.map continuation).foldl (fun n b => n * 64 + b.toNat % 64)
      (leadBits (more.length + 1) lead) = c.value := by
    simpa only [List.foldl_map, continuation_bits] using hvalue
  simp only [decodeFrom, hlen, Nat.add_sub_cancel, htake, hall, List.length_map, hfold,
    scalar?_value hleast]
  by_cases h : c.IsScalar <;> simp [h]

/-- The lead byte of a code point, the bytes that follow it, and what reading makes of them. -/
theorem decodeFrom_encode (c : CodePoint) :
    ∃ lead tail, c.encode = lead :: tail ∧ ∀ rest, decodeFrom lead (tail ++ rest) =
      if c.IsScalar then .ok (c, tail.length + 1) else .error .invalidSequence := by
  have hlt := c.value_lt
  by_cases h1 : c.value < 0x80
  · refine ⟨c.value.toUInt8, [], by simp [CodePoint.encode, h1], fun rest => ?_⟩
    refine decodeFrom_of_continuations [] ?_ (Nat.zero_le _) ?_ rest
    · simp [sequenceLength_toUInt8 (show c.value < 256 by omega), h1]
    · exact toNat_toUInt8 (by omega)
  by_cases h2 : c.value < 0x800
  · refine ⟨(0xC0 + c.value / 64).toUInt8, [continuation c.value],
      by simp [CodePoint.encode, h1, h2, continuation], fun rest => ?_⟩
    have hn : 0xC0 + c.value / 64 < 256 := by omega
    refine decodeFrom_of_continuations [c.value] ?_ (by simp [leastValue]; omega) ?_ rest
    · rw [sequenceLength_toUInt8 hn]
      simp only [List.length_cons, List.length_nil]
      split_ifs <;> omega
    · simp only [List.foldl, List.length_cons, List.length_nil, leadBits, toNat_toUInt8 hn]
      omega
  by_cases h3 : c.value < 0x10000
  · refine ⟨(0xE0 + c.value / 4096).toUInt8, [continuation (c.value / 64), continuation c.value],
      by simp [CodePoint.encode, h1, h2, h3, continuation], fun rest => ?_⟩
    have hn : 0xE0 + c.value / 4096 < 256 := by omega
    refine decodeFrom_of_continuations [c.value / 64, c.value] ?_
      (by simp [leastValue]; omega) ?_ rest
    · rw [sequenceLength_toUInt8 hn]
      simp only [List.length_cons, List.length_nil]
      split_ifs <;> omega
    · simp only [List.foldl, List.length_cons, List.length_nil, leadBits, toNat_toUInt8 hn]
      omega
  · refine ⟨(0xF0 + c.value / 262144).toUInt8,
      [continuation (c.value / 4096), continuation (c.value / 64), continuation c.value],
      by simp [CodePoint.encode, h1, h2, h3, continuation], fun rest => ?_⟩
    have hn : 0xF0 + c.value / 262144 < 256 := by omega
    refine decodeFrom_of_continuations [c.value / 4096, c.value / 64, c.value] ?_
      (by simp [leastValue]; omega) ?_ rest
    · rw [sequenceLength_toUInt8 hn]
      simp only [List.length_cons, List.length_nil]
      split_ifs <;> omega
    · simp only [List.foldl, List.length_cons, List.length_nil, leadBits, toNat_toUInt8 hn]
      omega

theorem decode_cons {lead : UInt8} {tail : Bytes} {c : CodePoint} {width : ℕ}
    (h : decodeFrom lead tail = .ok (c, width)) :
    decode (lead :: tail) =
      { decode (tail.drop (width - 1)) with
        text := c :: (decode (tail.drop (width - 1))).text } := by
  rw [decode, h]

theorem decode_encode_append {text : Text} (h : ∀ c ∈ text, c.IsScalar) (rest : Bytes) :
    decode (text.encode ++ rest) = { decode rest with text := text ++ (decode rest).text } := by
  induction text with
  | nil => rfl
  | cons c cs ih =>
    obtain ⟨lead, tail, hc, hread⟩ := decodeFrom_encode c
    simp only [h c (by simp), if_true] at hread
    have hcs := ih fun d hd => h d (by simp [hd])
    simp only [Text.encode, List.flatMap_cons, hc, List.cons_append, List.append_assoc] at hcs ⊢
    rw [decode_cons (hread _)]
    simp [hcs]

/-- Writing and reading give the same text. -/
theorem decode_encode {text : Text} (h : ∀ c ∈ text, c.IsScalar) :
    decode text.encode = { text } := by
  simpa [decode] using decode_encode_append h []

theorem isScalar_of_decodeFrom {lead : UInt8} {tail : Bytes} {c : CodePoint} {width : ℕ}
    (h : decodeFrom lead tail = .ok (c, width)) : c.IsScalar := by
  simp only [decodeFrom] at h
  split_ifs at h
  split at h
  · cases h
  next d hd =>
    cases h
    simp only [scalar?, Option.dite_none_right_eq_some, Option.some.injEq] at hd
    obtain ⟨hv, rfl⟩ := hd
    rcases hv.2 with hv | hv
    · exact .inl hv
    · exact .inr hv.1

/-- Nothing but scalar values is ever read. -/
theorem isScalar_of_mem_decode {data : Bytes} :
    ∀ c ∈ (decode data).text, c.IsScalar := by
  fun_induction decode data with
  | case1 => simp
  | case2 => simp
  | case3 lead tail c width hc later ih =>
    intro d hd
    rcases List.mem_cons.mp hd with rfl | hd
    · exact isScalar_of_decodeFrom hc
    · exact ih d hd

end Utf8
end SExpression
