import Mathlib.Order.Bounds.Basic
import SExpression.Proofs.Encoding
import SExpression.Source

/-! What decoding reads is the longest start of the bytes that encodes scalar values, and its
fault is the one that a reader of single sequences meets right behind. -/
namespace SExpression

namespace Utf8

theorem toUInt8_eq {n : ℕ} {b : UInt8} (h : n = b.toNat) : n.toUInt8 = b := by
  subst h
  exact UInt8.ofNat_toNat

theorem isContinuation_iff {b : UInt8} :
    isContinuation b ↔ 0x80 ≤ b.toNat ∧ b.toNat < 0xC0 := by
  simp only [isContinuation, Bool.and_eq_true, decide_eq_true_eq, UInt8.le_iff_toNat_le,
    UInt8.lt_iff_toNat_lt]
  rfl

theorem sequenceLength_eq (lead : UInt8) : sequenceLength lead =
    if lead.toNat < 0x80 then 1 else if lead.toNat < 0xC2 then 0 else if lead.toNat < 0xE0 then 2
      else if lead.toNat < 0xF0 then 3 else if lead.toNat < 0xF5 then 4 else 0 := by
  rw [← sequenceLength_toUInt8 lead.toNat_lt, toUInt8_eq rfl]

/-- What a sequence that reads well is made of. -/
theorem of_decodeFrom {lead : UInt8} {tail : Bytes} {c : CodePoint} {width : ℕ}
    (h : decodeFrom lead tail = .ok (c, width)) :
    sequenceLength lead = width ∧ width ≤ tail.length + 1 ∧
      (∀ b ∈ tail.take (width - 1), isContinuation b) ∧ leastValue width ≤ c.value ∧
      (tail.take (width - 1)).foldl (fun n b => n * 64 + b.toNat % 64) (leadBits width lead) =
        c.value := by
  simp only [decodeFrom] at h
  split_ifs at h with hwidth hlength hall
  split at h
  · cases h
  next d hd =>
    cases h
    simp only [scalar?, Option.dite_none_right_eq_some, Option.some.injEq] at hd
    obtain ⟨hvalue, rfl⟩ := hd
    have hall := List.all_eq_true.mp (by simpa using hall)
    refine ⟨rfl, ?_, hall, hvalue.1, rfl⟩
    rw [List.length_take] at hlength
    omega

/-- What was read is what encoding writes. -/
theorem encode_of_decodeFrom {lead : UInt8} {tail : Bytes} {c : CodePoint} {width : ℕ}
    (h : decodeFrom lead tail = .ok (c, width)) : lead :: tail.take (width - 1) = c.encode := by
  obtain ⟨hwidth, hlength, hall, hleast, hvalue⟩ := of_decodeFrom h
  have hpos := width_pos_of_decodeFrom h
  have hmore : (tail.take (width - 1)).length = width - 1 := by
    rw [List.length_take]
    omega
  generalize tail.take (width - 1) = more at *
  have hlead := lead.toNat_lt
  rw [sequenceLength_eq] at hwidth
  obtain _ | ⟨b₁, _ | ⟨b₂, _ | ⟨b₃, _ | ⟨b₄, more⟩⟩⟩⟩ := more
  · obtain rfl : width = 1 := by simp at hmore; omega
    simp only [List.foldl_nil, leadBits] at hvalue
    have hn : c.value < 0x80 := by split_ifs at hwidth <;> omega
    simp [CodePoint.encode, hn, toUInt8_eq hvalue.symm]
  · obtain rfl : width = 2 := by simp at hmore; omega
    have h₁ := isContinuation_iff.mp (hall b₁ (by simp))
    simp only [List.foldl_cons, List.foldl_nil, leadBits, leastValue] at hvalue hleast
    have hrange : 0xC2 ≤ lead.toNat ∧ lead.toNat < 0xE0 := by split_ifs at hwidth <;> omega
    have hn : ¬ c.value < 0x80 ∧ c.value < 0x800 := by omega
    simp only [CodePoint.encode, hn, if_false, if_true]
    rw [toUInt8_eq (b := lead) (by omega), toUInt8_eq (b := b₁) (by omega)]
  · obtain rfl : width = 3 := by simp at hmore; omega
    have h₁ := isContinuation_iff.mp (hall b₁ (by simp))
    have h₂ := isContinuation_iff.mp (hall b₂ (by simp))
    simp only [List.foldl_cons, List.foldl_nil, leadBits, leastValue] at hvalue hleast
    have hrange : 0xE0 ≤ lead.toNat ∧ lead.toNat < 0xF0 := by split_ifs at hwidth <;> omega
    have hn : ¬ c.value < 0x80 ∧ ¬ c.value < 0x800 ∧ c.value < 0x10000 := by omega
    simp only [CodePoint.encode, hn, if_false, if_true]
    rw [toUInt8_eq (b := lead) (by omega), toUInt8_eq (b := b₁) (by omega),
      toUInt8_eq (b := b₂) (by omega)]
  · obtain rfl : width = 4 := by simp at hmore; omega
    have h₁ := isContinuation_iff.mp (hall b₁ (by simp))
    have h₂ := isContinuation_iff.mp (hall b₂ (by simp))
    have h₃ := isContinuation_iff.mp (hall b₃ (by simp))
    simp only [List.foldl_cons, List.foldl_nil, leadBits, leastValue] at hvalue hleast
    have hrange : 0xF0 ≤ lead.toNat ∧ lead.toNat < 0xF5 := by split_ifs at hwidth <;> omega
    have hn : ¬ c.value < 0x80 ∧ ¬ c.value < 0x800 ∧ ¬ c.value < 0x10000 := by omega
    simp only [CodePoint.encode, hn, if_false]
    rw [toUInt8_eq (b := lead) (by omega), toUInt8_eq (b := b₁) (by omega),
      toUInt8_eq (b := b₂) (by omega), toUInt8_eq (b := b₃) (by omega)]
  · have hfour := sequenceLength_le lead
    rw [sequenceLength_eq, hwidth] at hfour
    simp at hmore
    omega

theorem length_encode_of_decodeFrom {lead : UInt8} {tail : Bytes} {c : CodePoint} {width : ℕ}
    (h : decodeFrom lead tail = .ok (c, width)) : c.encode.length = width := by
  have hlength := (of_decodeFrom h).2.1
  have hpos := width_pos_of_decodeFrom h
  rw [← encode_of_decodeFrom h, List.length_cons, List.length_take]
  omega

/-- Bytes that encode scalar values, and nothing else. -/
def IsValid (data : Bytes) : Prop :=
  ∃ text : Text, (∀ c ∈ text, c.IsScalar) ∧ text.encode = data

@[simp] theorem decode_nil : decode [] = {} := by
  rw [decode]

theorem decode_cons_error {lead : UInt8} {tail : Bytes} {e : DecodeError}
    (h : decodeFrom lead tail = .error e) : decode (lead :: tail) = { fault := some e } := by
  rw [decode, h]

theorem decodeFrom_ne_pastEnd (lead : UInt8) (tail : Bytes) :
    decodeFrom lead tail ≠ .error .pastEnd := by
  simp only [decodeFrom]
  repeat' split
  all_goals simp

/-- Decoding never reads past the end. -/
theorem fault_ne_pastEnd (data : Bytes) : (decode data).fault ≠ some .pastEnd := by
  fun_induction decode data with
  | case1 => simp
  | case2 lead tail e h =>
    intro he
    cases he
    exact decodeFrom_ne_pastEnd lead tail h
  | case3 _ _ _ _ _ _ ih => exact ih

/-- The bytes behind what was decoded hold nothing but the fault. -/
theorem exists_decode_eq (data : Bytes) : ∃ tail, data = (decode data).text.encode ++ tail ∧
    decode tail = { fault := (decode data).fault } := by
  fun_induction decode data with
  | case1 => exact ⟨[], rfl, by simp⟩
  | case2 lead tail e h => exact ⟨lead :: tail, rfl, decode_cons_error h⟩
  | case3 lead tail c width h later ih =>
    obtain ⟨last, hlast, hfault⟩ := ih
    refine ⟨last, ?_, hfault⟩
    calc
      lead :: tail = (lead :: tail.take (width - 1)) ++ tail.drop (width - 1) := by simp
      _ = c.encode ++ (later.text.encode ++ last) := by rw [encode_of_decodeFrom h, ← hlast]
      _ = Text.encode (c :: later.text) ++ last := by simp [Text.encode]

theorem take_decode (data : Bytes) :
    data.take (decode data).text.encode.length = (decode data).text.encode := by
  obtain ⟨tail, hdata, -⟩ := exists_decode_eq data
  exact (List.prefix_iff_eq_take.mp ⟨tail, hdata.symm⟩).symm

theorem decode_drop (data : Bytes) :
    decode (data.drop (decode data).text.encode.length) = { fault := (decode data).fault } := by
  obtain ⟨tail, hdata, htail⟩ := exists_decode_eq data
  have hdrop := congrArg (List.drop (decode data).text.encode.length) hdata
  rw [List.drop_left] at hdrop
  rw [hdrop, htail]

/-- Only where nothing is left has decoding neither read anything nor met a fault. -/
theorem decode_eq_nil_iff {data : Bytes} : decode data = {} ↔ data = [] := by
  constructor
  · intro h
    cases data with
    | nil => rfl
    | cons lead tail =>
      cases hread : decodeFrom lead tail with
      | error e =>
        rw [decode_cons_error hread] at h
        cases h
      | ok found =>
        rw [decode_cons hread] at h
        cases h
  · rintro rfl
    exact decode_nil

theorem fault_eq_none_iff {data : Bytes} :
    (decode data).fault = none ↔ (decode data).text.encode = data := by
  obtain ⟨tail, hdata, htail⟩ := exists_decode_eq data
  constructor
  · intro h
    rw [h] at htail
    obtain rfl := decode_eq_nil_iff.mp htail
    rw [List.append_nil] at hdata
    exact hdata.symm
  · intro h
    have hempty : tail = [] := by
      have hlength := congrArg List.length hdata
      rw [List.length_append, ← congrArg List.length h] at hlength
      exact List.length_eq_zero_iff.mp (by omega)
    rw [hempty, decode_nil] at htail
    exact (congrArg Decoded.fault htail).symm

/-- No text of scalar values at the start of the bytes is longer than the one that is decoded. -/
theorem prefix_decode {data : Bytes} {text : Text} (h : ∀ c ∈ text, c.IsScalar)
    (hstart : text.encode <+: data) : text <+: (decode data).text := by
  obtain ⟨tail, rfl⟩ := hstart
  rw [decode_encode_append h]
  exact List.prefix_append _ _

theorem isGreatest_decode (data : Bytes) :
    IsGreatest {n | n ≤ data.length ∧ IsValid (data.take n)} (decode data).text.encode.length := by
  have htake := take_decode data
  constructor
  · refine ⟨?_, (decode data).text, isScalar_of_mem_decode, htake.symm⟩
    have hlength := congrArg List.length htake
    rw [List.length_take] at hlength
    omega
  · rintro n ⟨hn, text, hscalar, htext⟩
    obtain ⟨more, hmore⟩ := prefix_decode hscalar (htext ▸ List.take_prefix n data)
    have hlength := congrArg List.length htext
    rw [List.length_take, Nat.min_eq_left hn] at hlength
    rw [← hmore, Text.encode_append, List.length_append]
    omega

/-- What a reader of single sequences meets first. -/
def Decoded.first? : Decoded → Except DecodeError (Option (CodePoint × ℕ))
  | ⟨c :: _, _⟩ => .ok (some (c, c.encode.length))
  | ⟨[], none⟩ => .ok none
  | ⟨[], some e⟩ => .error e

/-- Within the bytes, reading a single sequence is the first step of decoding what is left. -/
theorem decodeAt?_eq {data : Bytes} {index : ℕ} (h : index ≤ data.length) :
    decodeAt? data index = (decode (data.drop index)).first? := by
  simp only [decodeAt?, not_lt.mpr h, if_false]
  cases data.drop index with
  | nil =>
    rw [decode_nil]
    rfl
  | cons lead tail =>
    show (decodeFrom lead tail).map some = _
    cases hread : decodeFrom lead tail with
    | error e =>
      rw [decode_cons_error hread]
      rfl
    | ok found =>
      obtain ⟨c, width⟩ := found
      rw [decode_cons hread, Decoded.first?, length_encode_of_decodeFrom hread]
      rfl

/-- Past the fault, the text that is shown goes on with the replacement of what is broken. -/
theorem exists_decodeLossy_eq (data : Bytes) : ∃ more,
    decodeLossy data = (decode data).text ++ more ∧
    more.head? = (decode data).fault.map fun _ => CodePoint.ofChar '\uFFFD' := by
  fun_induction decode data with
  | case1 => exact ⟨[], by rw [decodeLossy]; rfl, rfl⟩
  | case2 lead tail e h => exact ⟨_, by rw [decodeLossy, h]; rfl, rfl⟩
  | case3 lead tail c width h later ih =>
    obtain ⟨more, hmore, hhead⟩ := ih
    refine ⟨more, ?_, hhead⟩
    rw [decodeLossy, h]
    simp only [hmore, List.cons_append]
    rfl

/-- Encoded text decodes up to its first surrogate. -/
theorem decode_encode_eq (text : Text) : decode text.encode =
    { text := text.takeWhile (·.IsScalar),
      fault := (text.dropWhile (·.IsScalar)).head?.map fun _ => .invalidSequence } := by
  induction text with
  | nil => exact decode_nil
  | cons c cs ih =>
    obtain ⟨lead, tail, hc, hread⟩ := decodeFrom_encode c
    have hencode : Text.encode (c :: cs) = lead :: (tail ++ Text.encode cs) := by
      simp [Text.encode, hc]
    rw [hencode]
    by_cases h : c.IsScalar
    · simp only [h, if_true] at hread
      rw [decode_cons (hread _), Nat.add_sub_cancel, List.drop_left, ih]
      simp [h]
    · simp only [h, if_false] at hread
      rw [decode_cons_error (hread _)]
      simp [h]

end Utf8
end SExpression
