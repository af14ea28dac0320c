import SExpression.Proofs.Decoding

/-! Single sequences of UTF-8 against the layout of RFC 3629: reading at an index finds exactly the
shortest bytes that carry a scalar value. Where it finds none, more bytes could help only at the end
of the data, and there only if the bytes that are left start a sequence. -/
namespace SExpression

namespace Utf8

/-- Bytes in one of the four layouts, and the value that their free bits make up. -/
inductive Carries : Bytes → ℕ → Prop
  | one {a : UInt8} {n : ℕ} (ha : a.toNat / 0x80 = 0b0) (hn : n = a.toNat) : Carries [a] n
  | two {a b : UInt8} {n : ℕ} (ha : a.toNat / 0x20 = 0b110) (hb : b.toNat / 0x40 = 0b10)
      (hn : n = a.toNat % 0x20 * 0x40 + b.toNat % 0x40) : Carries [a, b] n
  | three {a b c : UInt8} {n : ℕ} (ha : a.toNat / 0x10 = 0b1110) (hb : b.toNat / 0x40 = 0b10)
      (hc : c.toNat / 0x40 = 0b10)
      (hn : n = a.toNat % 0x10 * 0x1000 + b.toNat % 0x40 * 0x40 + c.toNat % 0x40) :
      Carries [a, b, c] n
  | four {a b c d : UInt8} {n : ℕ} (ha : a.toNat / 0x8 = 0b11110) (hb : b.toNat / 0x40 = 0b10)
      (hc : c.toNat / 0x40 = 0b10) (hd : d.toNat / 0x40 = 0b10)
      (hn : n = a.toNat % 0x8 * 0x40000 + b.toNat % 0x40 * 0x1000 + c.toNat % 0x40 * 0x40 +
        d.toNat % 0x40) : Carries [a, b, c, d] n

/-- The bytes carry the value, and no fewer bytes do. -/
structure IsShortest (bytes : Bytes) (n : ℕ) : Prop where
  carries : Carries bytes n
  length_le : ∀ others, Carries others n → bytes.length ≤ others.length

theorem Carries.unique {a b : Bytes} {n : ℕ} (ha : Carries a n) (hb : Carries b n)
    (hlength : a.length = b.length) : a = b := by
  cases ha <;> cases hb <;> cases hlength
  all_goals
    simp only [List.cons.injEq, and_true, ← UInt8.toNat_inj]
    omega

theorem Carries.length_pos {bytes : Bytes} {n : ℕ} (h : Carries bytes n) : 0 < bytes.length := by
  cases h <;> simp

theorem carries_encode (c : CodePoint) : Carries c.encode c.value := by
  have hlt := c.value_lt
  have hlast := toNat_continuation c.value
  have hmiddle := toNat_continuation (c.value / 64)
  have hsecond := toNat_continuation (c.value / 4096)
  unfold CodePoint.encode
  dsimp only
  split_ifs with h1 h2 h3
  · have ha := toNat_toUInt8 (show c.value < 256 by omega)
    exact .one (by omega) ha.symm
  · have ha := toNat_toUInt8 (show 0xC0 + c.value / 64 < 256 by omega)
    show Carries [_, continuation c.value] _
    exact .two (by omega) (by omega) (by omega)
  · have ha := toNat_toUInt8 (show 0xE0 + c.value / 4096 < 256 by omega)
    show Carries [_, continuation (c.value / 64), continuation c.value] _
    exact .three (by omega) (by omega) (by omega) (by omega)
  · have ha := toNat_toUInt8 (show 0xF0 + c.value / 262144 < 256 by omega)
    show Carries [_, continuation (c.value / 4096), continuation (c.value / 64),
      continuation c.value] _
    exact .four (by omega) (by omega) (by omega) (by omega) (by omega)

theorem length_encode_le {bytes : Bytes} {c : CodePoint} (h : Carries bytes c.value) :
    c.encode.length ≤ bytes.length := by
  have hlength : c.encode.length = if c.value < 0x80 then 1 else if c.value < 0x800 then 2
      else if c.value < 0x10000 then 3 else 4 := by
    unfold CodePoint.encode
    dsimp only
    split_ifs <;> rfl
  rw [hlength]
  cases h <;> simp only [List.length_cons, List.length_nil] <;> split_ifs <;> omega

/-- What is written for a code point is the shortest way to carry it. -/
theorem isShortest_iff {bytes : Bytes} {c : CodePoint} :
    IsShortest bytes c.value ↔ bytes = c.encode := by
  constructor
  · intro h
    have hle := h.length_le _ (carries_encode c)
    exact h.carries.unique (carries_encode c) (hle.antisymm (length_encode_le h.carries))
  · rintro rfl
    exact ⟨carries_encode c, fun others h => length_encode_le h⟩

section At

variable {data : Bytes} {index : ℕ} {lead : UInt8} {tail : Bytes}

theorem exists_drop_eq_cons (h : index < data.length) :
    ∃ lead more, data.drop index = lead :: more := by
  rw [← List.ne_nil_iff_exists_cons, ne_eq, List.drop_eq_nil_iff]
  omega

theorem decodeAt?_of_drop_cons (h : data.drop index = lead :: tail) :
    decodeAt? data index = (decodeFrom lead tail).map some := by
  have hle : ¬ data.length < index := by
    intro hlt
    rw [List.drop_eq_nil_of_le hlt.le] at h
    cases h
  simp [decodeAt?, hle, h]

theorem decodeAt?_eq_ok_none_iff : decodeAt? data index = .ok none ↔ index = data.length := by
  cases hdrop : data.drop index with
  | nil =>
    have hle := List.drop_eq_nil_iff.mp hdrop
    simp only [decodeAt?, hdrop, ite_eq_right_iff, reduceCtorEq, imp_false, not_lt]
    omega
  | cons lead tail =>
    have hlt : index < data.length := by
      by_contra hle
      simp [List.drop_eq_nil_of_le (not_lt.mp hle)] at hdrop
    rw [decodeAt?_of_drop_cons hdrop]
    refine iff_of_false ?_ hlt.ne
    cases decodeFrom lead tail <;> simp [Except.map]

/-- A character is read exactly where its encoding stands. -/
theorem decodeAt?_eq_ok_some_iff {width : ℕ} {c : CodePoint} :
    decodeAt? data index = .ok (some (c, width)) ↔
      c.IsScalar ∧ c.encode.length = width ∧ (data.drop index).take width = c.encode := by
  constructor
  · intro h
    cases hdrop : data.drop index with
    | nil =>
      simp only [decodeAt?, hdrop] at h
      split at h <;> cases h
    | cons lead tail =>
      rw [decodeAt?_of_drop_cons hdrop] at h
      cases hread : decodeFrom lead tail with
      | error e => simp [hread, Except.map] at h
      | ok found =>
        obtain rfl : found = (c, width) := by simpa [hread, Except.map] using h
        have hencode := encode_of_decodeFrom hread
        have hpos := width_pos_of_decodeFrom hread
        refine ⟨isScalar_of_decodeFrom hread, length_encode_of_decodeFrom hread, ?_⟩
        rw [← hencode, ← List.take_succ_cons, Nat.sub_add_cancel hpos]
  · rintro ⟨hscalar, rfl, htake⟩
    obtain ⟨lead, tail, hc, hread⟩ := decodeFrom_encode c
    have hdrop : data.drop index = lead :: (tail ++ (data.drop index).drop c.encode.length) := by
      conv_lhs => rw [← List.take_append_drop c.encode.length (data.drop index), htake, hc]
      rw [List.cons_append, hc]
    rw [decodeAt?_of_drop_cons hdrop, hread, if_pos hscalar, hc]
    rfl

/-- The bytes from the index on start with the encoding of the scalar value. -/
structure HasCharacter (data : Bytes) (index : ℕ) (c : CodePoint) (width : ℕ) : Prop where
  isScalar : c.IsScalar
  le_length : index + width ≤ data.length
  isShortest : IsShortest ((data.drop index).take width) c.value

theorem hasCharacter_iff {width : ℕ} {c : CodePoint} :
    HasCharacter data index c width ↔
      c.IsScalar ∧ c.encode.length = width ∧ (data.drop index).take width = c.encode := by
  have hlength : ((data.drop index).take width).length = min width (data.length - index) := by
    rw [List.length_take, List.length_drop]
  constructor
  · rintro ⟨hscalar, hle, hshortest⟩
    have htake := isShortest_iff.mp hshortest
    refine ⟨hscalar, ?_, htake⟩
    rw [← htake, hlength]
    omega
  · rintro ⟨hscalar, hwidth, htake⟩
    have hpos : 0 < c.encode.length := (carries_encode c).length_pos
    rw [htake, hwidth] at hlength
    exact ⟨hscalar, by omega, isShortest_iff.mpr htake⟩

/-- A character is read exactly where its shortest encoding stands, nothing exactly at the end, and
everywhere else within the data an error of the sequence is told. -/
theorem decodeAt?_answers (data : Bytes) (index : ℕ) :
    (∀ c width, decodeAt? data index = .ok (some (c, width)) ↔
      HasCharacter data index c width) ∧
    (decodeAt? data index = .ok none ↔ index = data.length) ∧
    (index < data.length → (∀ c width, ¬ HasCharacter data index c width) →
      ∃ e, decodeAt? data index = .error e ∧
        (e = .invalidSequence ∨ e = .invalidContinuation ∨ ∃ lead, e = .incomplete lead)) := by
  refine ⟨fun c width => ?_, decodeAt?_eq_ok_none_iff, fun hlt hno => ?_⟩
  · rw [decodeAt?_eq_ok_some_iff, hasCharacter_iff]
  · obtain ⟨lead, tail, hdrop⟩ := exists_drop_eq_cons hlt
    have hanswer := decodeAt?_of_drop_cons hdrop
    cases hread : decodeFrom lead tail with
    | ok found =>
      obtain ⟨c, width⟩ := found
      rw [hread] at hanswer
      exact absurd (hasCharacter_iff.mpr (decodeAt?_eq_ok_some_iff.mp hanswer)) (hno c width)
    | error e =>
      rw [hread] at hanswer
      refine ⟨e, hanswer, ?_⟩
      have hne := decodeFrom_ne_pastEnd lead tail
      cases e with
      | pastEnd => exact absurd hread hne
      | incomplete lead => exact .inr (.inr ⟨lead, rfl⟩)
      | invalidSequence => exact .inl rfl
      | invalidContinuation => exact .inr (.inl rfl)

end At

/-- The byte may come second behind the lead byte: it continues a sequence, and does not leave the
value overlong, a surrogate or out of range. -/
structure FitsSecond (lead b : UInt8) : Prop where
  isContinuation : isContinuation b
  ge_of_E0 : lead = 0xE0 → 0xA0 ≤ b
  lt_of_ED : lead = 0xED → b < 0xA0
  ge_of_F0 : lead = 0xF0 → 0x90 ≤ b
  lt_of_F4 : lead = 0xF4 → b < 0x90

/-- The bytes may come next behind the lead byte, as far as they go. -/
def Continues (lead : UInt8) : Bytes → Prop
  | [] => True
  | b :: more => FitsSecond lead b ∧ ∀ d ∈ more, isContinuation d

/-- Some encoding starts with the bytes. -/
def IsStart (bytes : Bytes) : Prop :=
  ∃ c : CodePoint, c.IsScalar ∧ bytes <+: c.encode

theorem fitsSecond_iff {lead b : UInt8} : FitsSecond lead b ↔
    (0x80 ≤ b.toNat ∧ b.toNat < 0xC0) ∧ (lead.toNat = 0xE0 → 0xA0 ≤ b.toNat) ∧
      (lead.toNat = 0xED → b.toNat < 0xA0) ∧ (lead.toNat = 0xF0 → 0x90 ≤ b.toNat) ∧
        (lead.toNat = 0xF4 → b.toNat < 0x90) := by
  have hparts : FitsSecond lead b ↔ isContinuation b ∧ (lead = 0xE0 → 0xA0 ≤ b) ∧
      (lead = 0xED → b < 0xA0) ∧ (lead = 0xF0 → 0x90 ≤ b) ∧ (lead = 0xF4 → b < 0x90) :=
    ⟨fun ⟨h₁, h₂, h₃, h₄, h₅⟩ => ⟨h₁, h₂, h₃, h₄, h₅⟩,
      fun ⟨h₁, h₂, h₃, h₄, h₅⟩ => ⟨h₁, h₂, h₃, h₄, h₅⟩⟩
  rw [hparts, isContinuation_iff]
  simp only [← UInt8.toNat_inj, UInt8.le_iff_toNat_le, UInt8.lt_iff_toNat_lt]
  exact Iff.rfl

instance (lead b : UInt8) : Decidable (FitsSecond lead b) :=
  decidable_of_iff _ fitsSecond_iff.symm

instance (lead : UInt8) (more : Bytes) : Decidable (Continues lead more) :=
  match more with
  | [] => isTrue trivial
  | b :: more => inferInstanceAs (Decidable (FitsSecond lead b ∧ ∀ d ∈ more, isContinuation d))

/-- Bytes of the right number are read if they continue a sequence and their value is that of a
scalar value, and one that needs so many. -/
theorem exists_decodeFrom_iff_value {lead : UInt8} {more : Bytes}
    (h : sequenceLength lead = more.length + 1) (rest : Bytes) :
    (∃ c, decodeFrom lead (more ++ rest) = .ok (c, more.length + 1)) ↔
      (∀ b ∈ more, isContinuation b) ∧
        let value := more.foldl (fun n b => n * 64 + b.toNat % 64) (leadBits (more.length + 1) lead)
        leastValue (more.length + 1) ≤ value ∧
          (value < 0xD800 ∨ 0xDFFF < value ∧ value < 0x110000) := by
  have htake : (more ++ rest).take more.length = more := by
    rw [List.take_append_of_le_length le_rfl, List.take_length]
  simp only [decodeFrom, h, Nat.add_sub_cancel, htake]
  generalize more.foldl (fun n b => n * 64 + b.toNat % 64) (leadBits (more.length + 1) lead) = value
  by_cases hall : more.all isContinuation
  · have hvalue : (∃ c, scalar? (more.length + 1) value = some c) ↔
        leastValue (more.length + 1) ≤ value ∧
          (value < 0xD800 ∨ 0xDFFF < value ∧ value < 0x110000) := by
      simp [scalar?]
    rw [← hvalue]
    have hall' := List.all_eq_true.mp hall
    cases scalar? (more.length + 1) value with
    | none => simp [hall]
    | some c => simpa [hall] using hall'
  · have hall' := mt List.all_eq_true.mpr hall
    simp [hall, hall']

/-- Bytes of the right number are read exactly if each may come where it stands. -/
theorem exists_decodeFrom_iff {lead : UInt8} {more : Bytes}
    (h : sequenceLength lead = more.length + 1) (rest : Bytes) :
    (∃ c, decodeFrom lead (more ++ rest) = .ok (c, more.length + 1)) ↔ Continues lead more := by
  rw [exists_decodeFrom_iff_value h]
  have hlead := lead.toNat_lt
  have hfour := sequenceLength_le lead
  rw [h] at hfour
  rw [sequenceLength_eq] at h
  obtain _ | ⟨b₁, _ | ⟨b₂, _ | ⟨b₃, _ | ⟨b₄, more⟩⟩⟩⟩ := more
  · have hrange : lead.toNat < 0x80 := by
      simp only [List.length_nil] at h
      split_ifs at h <;> omega
    simp only [leastValue, List.length_nil, zero_add, leadBits, List.foldl_nil, Continues,
      List.not_mem_nil, IsEmpty.forall_iff, implies_true, zero_le, true_and, iff_true]
    omega
  · have hrange : 0xC2 ≤ lead.toNat ∧ lead.toNat < 0xE0 := by
      simp only [List.length_cons, List.length_nil] at h
      split_ifs at h <;> omega
    simp only [List.mem_cons, List.not_mem_nil, or_false, forall_eq, isContinuation_iff, leastValue,
      List.length_cons, List.length_nil, zero_add, Nat.reduceAdd, leadBits, List.foldl_cons,
      List.foldl_nil, Continues, fitsSecond_iff, IsEmpty.forall_iff, implies_true, and_true]
    omega
  · have hrange : 0xE0 ≤ lead.toNat ∧ lead.toNat < 0xF0 := by
      simp only [List.length_cons, List.length_nil] at h
      split_ifs at h <;> omega
    simp only [List.mem_cons, List.not_mem_nil, or_false, forall_eq_or_imp, forall_eq,
      isContinuation_iff, leastValue, List.length_cons, List.length_nil, zero_add, Nat.reduceAdd,
      leadBits, List.foldl_cons, List.foldl_nil, Continues, fitsSecond_iff]
    omega
  · have hrange : 0xF0 ≤ lead.toNat ∧ lead.toNat < 0xF5 := by
      simp only [List.length_cons, List.length_nil] at h
      split_ifs at h <;> omega
    simp only [List.mem_cons, List.not_mem_nil, or_false, forall_eq_or_imp, forall_eq,
      isContinuation_iff, leastValue, List.length_cons, List.length_nil, zero_add, Nat.reduceAdd,
      leadBits, List.foldl_cons, List.foldl_nil, Continues, fitsSecond_iff]
    omega
  · simp only [List.length_cons] at hfour
    omega

section Starts

variable {lead : UInt8} {more : Bytes}

theorem Continues.of_append {last : Bytes} (h : Continues lead (more ++ last)) :
    Continues lead more := by
  cases more with
  | nil => trivial
  | cons b more => exact ⟨h.1, fun d hd => h.2 d (List.mem_append_left last hd)⟩

theorem exists_fitsSecond (lead : UInt8) : ∃ b, FitsSecond lead b := by
  by_cases h : lead.toNat = 0xE0 ∨ lead.toNat = 0xF0
  · refine ⟨0xA0, fitsSecond_iff.mpr ?_⟩
    simp
    omega
  · refine ⟨0x80, fitsSecond_iff.mpr ?_⟩
    simp
    omega

/-- Bytes that continue a sequence can be brought to any length. -/
theorem Continues.exists_append (h : Continues lead more) {length : ℕ}
    (hle : more.length ≤ length) :
    ∃ last, Continues lead (more ++ last) ∧ (more ++ last).length = length := by
  have hlast (b : UInt8) (bs : Bytes) (hb : FitsSecond lead b) (hbs : ∀ d ∈ bs, isContinuation d)
      (n : ℕ) : Continues lead (b :: bs ++ List.replicate n 0x80) := by
    refine ⟨hb, fun d hd => ?_⟩
    rcases List.mem_append.mp hd with hd | hd
    · exact hbs d hd
    · rw [List.eq_of_mem_replicate hd]
      decide
  cases more with
  | cons b bs =>
    refine ⟨_, hlast b bs h.1 h.2 (length - (bs.length + 1)), ?_⟩
    simp at hle ⊢
    omega
  | nil =>
    cases length with
    | zero => exact ⟨[], trivial, rfl⟩
    | succ n =>
      obtain ⟨b, hb⟩ := exists_fitsSecond lead
      exact ⟨b :: List.replicate n 0x80, hlast b [] hb (by simp) n, by simp⟩

/-- The lead byte tells the length of the encoding. -/
theorem sequenceLength_of_encode {c : CodePoint} {tail : Bytes} (hscalar : c.IsScalar)
    (hc : c.encode = lead :: tail) :
    sequenceLength lead = tail.length + 1 ∧ Continues lead tail := by
  obtain ⟨lead', tail', hc', hread⟩ := decodeFrom_encode c
  obtain ⟨rfl, rfl⟩ := List.cons.inj (hc.symm.trans hc')
  have hread : decodeFrom lead (tail ++ []) = .ok (c, tail.length + 1) := by
    rw [hread, if_pos hscalar]
  have hlength := (of_decodeFrom hread).1
  exact ⟨hlength, (exists_decodeFrom_iff hlength []).mp ⟨c, hread⟩⟩

/-- With the bytes that are missing behind it, a sequence is read. -/
theorem Continues.exists_decodeFrom (h : Continues lead more)
    (hlength : more.length < sequenceLength lead) :
    ∃ (last : Bytes) (c : CodePoint), (more ++ last).length + 1 = sequenceLength lead ∧
      decodeFrom lead (more ++ last) = .ok (c, sequenceLength lead) := by
  obtain ⟨last, hlast, heq⟩ := h.exists_append (Nat.le_sub_one_of_lt hlength)
  have hwhole : sequenceLength lead = (more ++ last).length + 1 := by omega
  obtain ⟨c, hread⟩ := (exists_decodeFrom_iff hwhole []).mpr hlast
  rw [List.append_nil, ← hwhole] at hread
  exact ⟨last, c, hwhole.symm, hread⟩

theorem isStart_cons_iff :
    IsStart (lead :: more) ↔ more.length < sequenceLength lead ∧ Continues lead more := by
  constructor
  · rintro ⟨c, hscalar, last, hc⟩
    have hc : c.encode = lead :: (more ++ last) := hc.symm
    obtain ⟨hlength, hcontinues⟩ := sequenceLength_of_encode hscalar hc
    rw [hlength, List.length_append]
    exact ⟨by omega, hcontinues.of_append⟩
  · rintro ⟨hlength, hcontinues⟩
    obtain ⟨last, c, hwhole, hread⟩ := hcontinues.exists_decodeFrom hlength
    refine ⟨c, isScalar_of_decodeFrom hread, last, ?_⟩
    rw [← encode_of_decodeFrom hread, ← hwhole, Nat.add_sub_cancel, List.take_length]
    rfl

end Starts

/-- No character is read at the index, but with more bytes behind the data one would be. -/
def AwaitsMore (data : Bytes) (index : ℕ) : Prop :=
  (∀ c width, decodeAt? data index ≠ .ok (some (c, width))) ∧
    ∃ more ≠ [], ∃ c width, decodeAt? (data ++ more) index = .ok (some (c, width))

/-- The data ends before the sequence that its lead byte asks for, but has a byte in it already that
may not come where it stands. -/
def IsSpoilt (data : Bytes) (index : ℕ) : Prop :=
  ∃ lead more, data.drop index = lead :: more ∧ more.length + 1 < sequenceLength lead ∧
    ¬ Continues lead more

section Awaits

variable {data : Bytes} {index : ℕ}

theorem decodeFrom_eq_incomplete_iff {lead other : UInt8} {tail : Bytes} :
    decodeFrom lead tail = .error (.incomplete other) ↔
      lead = other ∧ tail.length + 1 < sequenceLength lead := by
  unfold decodeFrom
  dsimp only
  rw [List.length_take]
  split_ifs with hzero hshort hall
  · simp [hzero]
  · simp only [Except.error.injEq, DecodeError.incomplete.injEq, iff_self_and]
    omega
  · simp
    omega
  · split <;> simp <;> omega

theorem decodeAt?_eq_incomplete_iff {lead : UInt8} :
    decodeAt? data index = .error (.incomplete lead) ↔
      ∃ more, data.drop index = lead :: more ∧ more.length + 1 < sequenceLength lead := by
  cases hdrop : data.drop index with
  | nil =>
    simp only [decodeAt?, hdrop]
    split <;> simp
  | cons first tail =>
    rw [decodeAt?_of_drop_cons hdrop]
    have hmap : (decodeFrom first tail).map some = .error (.incomplete lead) ↔
        decodeFrom first tail = .error (.incomplete lead) := by
      cases decodeFrom first tail <;> simp [Except.map]
    rw [hmap, decodeFrom_eq_incomplete_iff]
    constructor
    · rintro ⟨rfl, hshort⟩
      exact ⟨tail, rfl, hshort⟩
    · rintro ⟨more, hcons, hshort⟩
      obtain ⟨rfl, rfl⟩ := List.cons.inj hcons
      exact ⟨rfl, hshort⟩

theorem awaitsMore_iff (h : index < data.length) :
    AwaitsMore data index ↔ ∃ lead more, data.drop index = lead :: more ∧
      more.length + 1 < sequenceLength lead ∧ Continues lead more := by
  have hdrops (x : Bytes) : (data ++ x).drop index = data.drop index ++ x :=
    List.drop_append_of_le_length h.le
  constructor
  · rintro ⟨hno, x, -, c, width, hread⟩
    obtain ⟨lead, more, hdrop⟩ := exists_drop_eq_cons h
    obtain ⟨hscalar, hwidth, htake⟩ := decodeAt?_eq_ok_some_iff.mp hread
    rw [hdrops, hdrop] at htake
    -- The encoding goes on past the bytes that are there, or it would be read without the others.
    have hlonger : more.length + 1 < width := by
      by_contra hle
      apply hno c width
      rw [decodeAt?_eq_ok_some_iff, hdrop]
      refine ⟨hscalar, hwidth, ?_⟩
      rwa [List.take_append_of_le_length (by simpa using hle)] at htake
    obtain ⟨last, hc⟩ : ∃ last, c.encode = lead :: (more ++ last) := by
      refine ⟨x.take (width - (more.length + 1)), ?_⟩
      rw [← htake, List.take_append, List.take_of_length_le (by simp; omega)]
      rfl
    obtain ⟨hlength, hcontinues⟩ := sequenceLength_of_encode hscalar hc
    rw [hc, List.length_cons, ← hlength] at hwidth
    exact ⟨lead, more, hdrop, by omega, hcontinues.of_append⟩
  · rintro ⟨lead, more, hdrop, hshort, hcontinues⟩
    obtain ⟨last, c, hwhole, hread⟩ := hcontinues.exists_decodeFrom (by omega)
    refine ⟨fun d width hd => ?_, last, ?_, c, sequenceLength lead, ?_⟩
    · rw [decodeAt?_eq_incomplete_iff.mpr ⟨more, hdrop, hshort⟩] at hd
      cases hd
    · rintro rfl
      rw [List.append_nil] at hwhole
      omega
    · rw [decodeAt?_of_drop_cons (by rw [hdrops, hdrop, List.cons_append]), hread]
      rfl

/-- A sequence is told to be incomplete where more bytes would help, and also where a byte that is
there already spoils it. -/
theorem incomplete_iff (data : Bytes) (index : ℕ) (h : index < data.length) :
    ((∃ lead, decodeAt? data index = .error (.incomplete lead)) ↔
      AwaitsMore data index ∨ IsSpoilt data index) ∧
    ¬ (AwaitsMore data index ∧ IsSpoilt data index) := by
  rw [awaitsMore_iff h]
  simp only [decodeAt?_eq_incomplete_iff]
  refine ⟨⟨?_, ?_⟩, ?_⟩
  · rintro ⟨lead, more, hdrop, hshort⟩
    by_cases hcontinues : Continues lead more
    · exact .inl ⟨lead, more, hdrop, hshort, hcontinues⟩
    · exact .inr ⟨lead, more, hdrop, hshort, hcontinues⟩
  · rintro (⟨lead, more, hdrop, hshort, -⟩ | ⟨lead, more, hdrop, hshort, -⟩)
    · exact ⟨lead, more, hdrop, hshort⟩
    · exact ⟨lead, more, hdrop, hshort⟩
  · rintro ⟨⟨lead, more, hdrop, -, hcontinues⟩, lead', more', hdrop', -, hspoilt⟩
    obtain ⟨rfl, rfl⟩ := List.cons.inj (hdrop.symm.trans hdrop')
    exact hspoilt hcontinues

/-- The first two of the three bytes of a character. -/
theorem incomplete_of_cut_character :
    let data : Bytes := [0x61, 0xE2, 0x82]
    1 < data.length ∧ AwaitsMore data 1 := by
  intro data
  obtain ⟨hiff, -⟩ := incomplete_iff data 1 (by decide)
  have hread : decodeAt? data 1 = .error (.incomplete 0xE2) := by decide
  refine ⟨by decide, (hiff.mp ⟨_, hread⟩).resolve_right ?_⟩
  rintro ⟨lead, more, hdrop, -, hspoilt⟩
  obtain ⟨rfl, rfl⟩ := List.cons.inj hdrop
  exact hspoilt (by decide +kernel)

/-- Nothing makes a character of a lead byte with a bracket behind it. -/
theorem incomplete_without_hope : ¬ ∀ (data : Bytes) (index : ℕ), index < data.length →
    ((∃ lead, decodeAt? data index = .error (.incomplete lead)) ↔ AwaitsMore data index) := by
  intro h
  have hiff := h [0xE2, 0x28] 0 (by decide)
  have hread : decodeAt? [0xE2, 0x28] 0 = .error (.incomplete 0xE2) := by decide
  obtain ⟨lead, more, hdrop, -, hcontinues⟩ :=
    (awaitsMore_iff (by decide)).mp (hiff.mp ⟨_, hread⟩)
  obtain ⟨rfl, rfl⟩ := List.cons.inj hdrop
  revert hcontinues
  decide +kernel

end Awaits

end Utf8
end SExpression
