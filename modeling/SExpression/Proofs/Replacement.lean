import Mathlib.Data.List.TakeWhile
import SExpression.Proofs.Sequences
import SExpression.Element.Assembly
import SExpression.Snippet

/-! What is shown of bytes that do not decode. Two ways of reading bytes are compared: one goes from
character to character and stops at the first error, the other puts a replacement in the place of
each broken sequence and goes on. Up to the first error they agree. -/
namespace SExpression
open CodePoint (ofChar)

namespace Utf8

/-- The characters that are read from the index on, one after another, and the error that ends
them. -/
def walk (data : Bytes) (index : ℕ) : Decoded :=
  match _h : decodeAt? data index with
  | .error e => { fault := some e }
  | .ok none => {}
  | .ok (some (c, width)) =>
    let later := walk data (index + width)
    { later with text := c :: later.text }
termination_by data.length - index
decreasing_by
  have hcharacter := hasCharacter_iff.mpr (decodeAt?_eq_ok_some_iff.mp _h)
  have hpos := hcharacter.isShortest.carries.length_pos
  have hle := hcharacter.le_length
  simp only [List.length_take, List.length_drop] at hpos
  omega

/-- Going from character to character reads what decoding does. -/
theorem walk_eq {data : Bytes} {index : ℕ} (h : index ≤ data.length) :
    walk data index = decode (data.drop index) := by
  fun_induction walk data index with
  | case1 index e hread =>
    rw [decodeAt?_eq h] at hread
    cases hdecode : decode (data.drop index) with
    | mk text fault => cases text <;> cases fault <;> simp_all [Decoded.first?]
  | case2 index hread =>
    obtain rfl := decodeAt?_eq_ok_none_iff.mp hread
    rw [List.drop_length, decode_nil]
  | case3 index c width hread later ih =>
    have hcharacter := decodeAt?_eq_ok_some_iff.mp hread
    have hle := (hasCharacter_iff.mpr hcharacter).le_length
    obtain ⟨hscalar, -, htake⟩ := hcharacter
    have hdrop : data.drop index = Text.encode [c] ++ data.drop (index + width) := by
      rw [← List.drop_drop, Text.encode, List.flatMap_singleton, ← htake, List.take_append_drop]
    rw [hdrop, decode_encode_append (by simpa using hscalar), ← ih hle]
    rfl

/-- The bytes at the start of the data that one replacement stands for, where no encoding stands: as
many as some encoding starts with, or else a single byte. -/
inductive IsBroken (data part : Bytes) : Prop
  | start (hne : part ≠ []) (hpart : IsStart part)
      (hlongest : ∀ longer, longer <+: data → IsStart longer → longer.length ≤ part.length)
  | byte (hlength : part.length = 1) (hpart : ¬ IsStart part)

/-- Text in which each character stands for its encoding, and each replacement for a part of a
broken sequence. -/
inductive Repaired : Bytes → Text → Prop
  | nil : Repaired [] []
  | character {c : CodePoint} {rest : Bytes} {text : Text} (hc : c.IsScalar)
      (h : Repaired rest text) : Repaired (c.encode ++ rest) (c :: text)
  | broken {part rest : Bytes} {text : Text}
      (hnone : ∀ c : CodePoint, c.IsScalar → ¬ c.encode <+: part ++ rest)
      (hpart : IsBroken (part ++ rest) part) (h : Repaired rest text) :
      Repaired (part ++ rest) (ofChar '\uFFFD' :: text)

theorem IsBroken.ne_nil {data part : Bytes} (h : IsBroken data part) : part ≠ [] := by
  cases h with
  | start hne => exact hne
  | byte hlength => exact List.ne_nil_of_length_eq_add_one hlength

theorem IsStart.of_prefix {part longer : Bytes} (h : IsStart longer) (hpart : part <+: longer) :
    IsStart part := by
  obtain ⟨c, hscalar, hc⟩ := h
  exact ⟨c, hscalar, hpart.trans hc⟩

theorem fitsSecond_iff_range {lead b : UInt8} : FitsSecond lead b ↔
    let second : UInt8 × UInt8 :=
      if lead = 0xE0 then (0xA0, 0xBF) else if lead = 0xED then (0x80, 0x9F)
      else if lead = 0xF0 then (0x90, 0xBF) else if lead = 0xF4 then (0x80, 0x8F)
      else (0x80, 0xBF)
    second.1 ≤ b ∧ b ≤ second.2 := by
  rw [fitsSecond_iff]
  simp only [← UInt8.toNat_inj]
  split_ifs <;> simp_all [UInt8.le_iff_toNat_le] <;> omega

/-- The bytes that may come where they stand behind the lead byte, up to the first that may not. -/
def fitting (lead : UInt8) : Bytes → Bytes
  | [] => []
  | b :: more => if FitsSecond lead b then b :: more.takeWhile isContinuation else []

theorem fitting_prefix (lead : UInt8) (more : Bytes) : fitting lead more <+: more := by
  cases more with
  | nil => exact List.prefix_refl _
  | cons b more =>
    rw [fitting]
    split
    · exact List.cons_prefix_cons.mpr ⟨rfl, List.takeWhile_prefix _⟩
    · exact List.nil_prefix

theorem continues_fitting (lead : UInt8) (more : Bytes) : Continues lead (fitting lead more) := by
  cases more with
  | nil => trivial
  | cons b more =>
    rw [fitting]
    split
    next hb => exact ⟨hb, fun d hd => List.mem_takeWhile_imp hd⟩
    next => trivial

theorem Continues.length_le_fitting {lead : UInt8} {part more : Bytes} (h : Continues lead part)
    (hpart : part <+: more) : part.length ≤ (fitting lead more).length := by
  cases part with
  | nil => exact Nat.zero_le _
  | cons b bs =>
    obtain ⟨last, rfl⟩ := hpart
    rw [List.cons_append, fitting, if_pos h.1, List.length_cons, List.length_cons,
      List.takeWhile_append_of_pos h.2, List.length_append]
    omega

theorem brokenLength_eq (lead : UInt8) (tail : Bytes) : brokenLength lead tail =
    (fitting lead (tail.take (sequenceLength lead - 1))).length + 1 := by
  unfold brokenLength
  cases tail.take (sequenceLength lead - 1) with
  | nil => rfl
  | cons b more =>
    simp only [Bool.and_eq_true, decide_eq_true_eq]
    rw [if_congr fitsSecond_iff_range.symm rfl rfl, fitting]
    split
    · rw [List.length_cons]
      omega
    · rfl

/-- No two parts can give way at the same place. -/
theorem IsBroken.unique {data a b : Bytes} (ha : IsBroken data a) (hb : IsBroken data b)
    (hadata : a <+: data) (hbdata : b <+: data) : a = b := by
  have hstart {a b : Bytes} (hne : a ≠ []) (ha : IsStart a) (hlength : b.length = 1)
      (hb : ¬ IsStart b) (hadata : a <+: data) (hbdata : b <+: data) : a = b := by
    have hpos := List.length_pos_iff.mpr hne
    have hprefix := List.prefix_of_prefix_length_le hbdata hadata (by omega)
    exact absurd (ha.of_prefix hprefix) hb
  have hsame (hlength : a.length = b.length) : a = b :=
    (List.prefix_of_prefix_length_le hadata hbdata hlength.le).eq_of_length hlength
  cases ha with
  | start hne ha halongest =>
    cases hb with
    | start _ hb hblongest =>
      exact hsame ((hblongest a hadata ha).antisymm (halongest b hbdata hb))
    | byte hlength hb => exact hstart hne ha hlength hb hadata hbdata
  | byte hlength ha =>
    cases hb with
    | start hne hb => exact (hstart hne hb hlength ha hbdata hadata).symm
    | byte hlength' => exact hsame (hlength.trans hlength'.symm)

/-- A broken sequence gives way as far as its bytes may come where they stand. -/
theorem isBroken_take (lead : UInt8) (tail : Bytes) :
    IsBroken (lead :: tail) ((lead :: tail).take (brokenLength lead tail)) := by
  have hprefix := fitting_prefix lead (tail.take (sequenceLength lead - 1))
  have hcontinues := continues_fitting lead (tail.take (sequenceLength lead - 1))
  have htail : fitting lead (tail.take (sequenceLength lead - 1)) <+: tail :=
    hprefix.trans (List.take_prefix _ _)
  have hlength := hprefix.length_le
  rw [brokenLength_eq, List.take_succ_cons, ← List.prefix_iff_eq_take.mp htail]
  rw [List.length_take] at hlength
  by_cases hlead : IsStart [lead]
  · refine .start (List.cons_ne_nil _ _) ?_ ?_
    · have hpos := (isStart_cons_iff.mp hlead).1
      exact isStart_cons_iff.mpr ⟨by omega, hcontinues⟩
    · intro longer hlonger hstart
      cases longer with
      | nil => exact Nat.zero_le _
      | cons b more =>
        obtain ⟨rfl, hmore⟩ := List.cons_prefix_cons.mp hlonger
        obtain ⟨hshort, hfits⟩ := isStart_cons_iff.mp hstart
        have htake : more <+: tail.take (sequenceLength b - 1) :=
          List.prefix_take_iff.mpr ⟨hmore, by omega⟩
        exact Nat.succ_le_succ (hfits.length_le_fitting htake)
  · have hzero : sequenceLength lead = 0 := by
      by_contra hpos
      exact hlead (isStart_cons_iff.mpr ⟨Nat.pos_of_ne_zero hpos, trivial⟩)
    have hnil : (fitting lead (tail.take (sequenceLength lead - 1))).length = 0 := by omega
    rw [List.length_eq_zero_iff.mp hnil]
    exact .byte rfl hlead

theorem encode_not_prefix_of_error {lead : UInt8} {tail : Bytes} {e : DecodeError}
    (h : decodeFrom lead tail = .error e) {c : CodePoint} (hc : c.IsScalar) :
    ¬ c.encode <+: lead :: tail := by
  rintro ⟨rest, hrest⟩
  obtain ⟨lead', tail', hcons, hread⟩ := decodeFrom_encode c
  rw [hcons, List.cons_append] at hrest
  obtain ⟨rfl, rfl⟩ := List.cons.inj hrest
  rw [hread, if_pos hc] at h
  cases h

theorem exists_error_of_not_prefix {lead : UInt8} {tail : Bytes}
    (h : ∀ c : CodePoint, c.IsScalar → ¬ c.encode <+: lead :: tail) :
    ∃ e, decodeFrom lead tail = .error e := by
  cases hread : decodeFrom lead tail with
  | error e => exact ⟨e, rfl⟩
  | ok found =>
    obtain ⟨c, width⟩ := found
    refine absurd ?_ (h c (isScalar_of_decodeFrom hread))
    rw [← encode_of_decodeFrom hread]
    exact List.cons_prefix_cons.mpr ⟨rfl, List.take_prefix _ _⟩

/-- Where no character is read, the part that is broken gives way to a replacement. -/
theorem exists_decodeLossy_of_error {lead : UInt8} {tail : Bytes} {e : DecodeError}
    (h : decodeFrom lead tail = .error e) : ∃ part rest, lead :: tail = part ++ rest ∧
      tail.drop (brokenLength lead tail - 1) = rest ∧ IsBroken (part ++ rest) part ∧
      decodeLossy (lead :: tail) = ofChar '\uFFFD' :: decodeLossy rest := by
  have hwhole := List.take_append_drop (brokenLength lead tail) (lead :: tail)
  have hdrop : (lead :: tail).drop (brokenLength lead tail) =
      tail.drop (brokenLength lead tail - 1) := by
    rw [brokenLength_eq, List.drop_succ_cons, Nat.add_sub_cancel]
  refine ⟨_, _, hwhole.symm, hdrop.symm, ?_, ?_⟩
  · rw [hwhole]
    exact isBroken_take lead tail
  · rw [decodeLossy, h, hdrop]

theorem decodeLossy_encode_append {c : CodePoint} (hc : c.IsScalar) (rest : Bytes) :
    decodeLossy (c.encode ++ rest) = c :: decodeLossy rest := by
  obtain ⟨lead, tail, hcons, hread⟩ := decodeFrom_encode c
  rw [hcons, List.cons_append, decodeLossy, hread, if_pos hc]
  simp

/-- Reading with replacements repairs all bytes. -/
theorem repaired_decodeLossy (data : Bytes) : Repaired data (decodeLossy data) := by
  fun_induction decodeLossy data with
  | case1 => exact .nil
  | case2 lead tail e hread ih =>
    obtain ⟨part, rest, hwhole, hrest, hpart, -⟩ := exists_decodeLossy_of_error hread
    rw [hrest] at ih ⊢
    have hnone (c : CodePoint) (hc : c.IsScalar) := encode_not_prefix_of_error hread hc
    rw [hwhole] at hnone ⊢
    exact .broken hnone hpart ih
  | case3 lead tail c width hread ih =>
    have hwhole : lead :: tail = c.encode ++ tail.drop (width - 1) := by
      rw [← encode_of_decodeFrom hread, List.cons_append, List.take_append_drop]
    rw [hwhole]
    exact .character (isScalar_of_decodeFrom hread) ih

/-- The repaired text is determined by the bytes. -/
theorem Repaired.eq_decodeLossy {data : Bytes} {text : Text} (h : Repaired data text) :
    text = decodeLossy data := by
  induction h with
  | nil => rw [decodeLossy]
  | character hc _ ih => rw [decodeLossy_encode_append hc, ih]
  | @broken part rest text hnone hpart _ ih =>
    obtain ⟨lead, tail, hcons⟩ : ∃ lead tail, part ++ rest = lead :: tail := by
      rw [← List.ne_nil_iff_exists_cons]
      exact List.append_ne_nil_of_left_ne_nil hpart.ne_nil rest
    rw [hcons] at hnone hpart ⊢
    obtain ⟨e, hread⟩ := exists_error_of_not_prefix hnone
    obtain ⟨other, last, hwhole, -, hother, hlossy⟩ := exists_decodeLossy_of_error hread
    rw [hwhole] at hpart hcons
    obtain rfl : part = other :=
      hpart.unique hother ⟨rest, hcons⟩ (List.prefix_append other last)
    rw [hlossy, ih, List.append_cancel_left hcons]

theorem repaired_iff {data : Bytes} {text : Text} :
    Repaired data text ↔ text = decodeLossy data := by
  constructor
  · exact Repaired.eq_decodeLossy
  · rintro rfl
    exact repaired_decodeLossy data

/-- One replacement stands for the two bytes that start a character. -/
example : Repaired [0x61, 0xE2, 0x82, 0x28] "a\uFFFD(" :=
  repaired_iff.mpr (by decide +kernel)

theorem decodeLossy_encode {text : Text} (h : ∀ c ∈ text, c.IsScalar) :
    decodeLossy text.encode = text := by
  induction text with
  | nil => rw [Text.encode, List.flatMap_nil, decodeLossy]
  | cons c cs ih =>
    rw [List.forall_mem_cons] at h
    rw [Text.encode, List.flatMap_cons, decodeLossy_encode_append h.1]
    exact congrArg (c :: ·) (ih h.2)

end Utf8

namespace Source

theorem ofBytes_encode {text : Text} (h : ∀ c ∈ text, c.IsScalar) :
    ofBytes text.encode = ofText text := by
  rw [ofBytes, Utf8.decodeLossy_encode h]
  rfl

/-- What is shown of bytes is what they are repaired to. It is what is read of them from character
to character, and goes on with a replacement where that meets an error. Where nothing has to be
repaired, text and its encoding are the same source. -/
theorem decodings_agree (data : Bytes) (text : Text) :
    let read := Utf8.walk data 0
    (∀ shown, Utf8.Repaired data shown ↔ shown = (ofBytes data).shown) ∧
    (read.fault = none → (ofBytes data).shown = read.text) ∧
    (read.fault ≠ none → read.text ++ [ofChar '\uFFFD'] <+: (ofBytes data).shown) ∧
    ((∀ c ∈ text, c.IsScalar) → ofBytes text.encode = ofText text ∧
      ∀ f limit, (ofBytes text.encode).cursor.tokens f = (ofText text).cursor.tokens f ∧
        (ofBytes text.encode).cursor.elements f limit = (ofText text).cursor.elements f limit ∧
        ∀ (report : Report) filename, report.format (ofBytes text.encode).shown filename =
          report.format (ofText text).shown filename) := by
  intro read
  have hread : read = Utf8.decode data := Utf8.walk_eq (Nat.zero_le _)
  obtain ⟨more, hshown, hhead⟩ := Utf8.exists_decodeLossy_eq data
  rw [hread]
  refine ⟨fun shown => Utf8.repaired_iff, fun hnone => ?_, fun hfault => ?_, fun htext => ?_⟩
  · rw [hnone, Option.map_none, List.head?_eq_none_iff] at hhead
    exact hshown.trans (by rw [hhead, List.append_nil])
  · obtain ⟨e, he⟩ := Option.ne_none_iff_exists'.mp hfault
    rw [he, Option.map_some, List.head?_eq_some_iff] at hhead
    obtain ⟨last, rfl⟩ := hhead
    exact ⟨last, by rw [List.append_assoc]; exact hshown.symm⟩
  · have hsource := ofBytes_encode htext
    rw [hsource]
    exact ⟨rfl, fun f limit => ⟨rfl, rfl, fun report filename => rfl⟩⟩

end Source
end SExpression
