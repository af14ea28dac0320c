import Mathlib.Data.Nat.Digits.Lemmas
import SExpression.Atom.Unsigned
import SExpression.Proofs.Layout

/-! Integer literals as numbers: which digits denote a number, which of these convert to a given
width, and that a number is read from each of its literals. -/
namespace SExpression
open CodePoint (ofChar)

theorem CodePoint.isScalar_ofChar (c : Char) : (ofChar c).IsScalar := by
  have hvalid : c.toNat.isValidChar := c.valid
  unfold Nat.isValidChar at hvalid
  rw [IsScalar, value_ofChar]
  omega

namespace Base

/-- The code point is that digit; a letter may be in either case. -/
def Writes (base : Base) (c : CodePoint) (d : ℕ) : Prop :=
  d < base.radix ∧ (c = ofChar (Nat.digitChar d) ∨ c = ofChar (Nat.digitChar d).toUpper)

instance (base : Base) (c : CodePoint) (d : ℕ) : Decidable (base.Writes c d) :=
  inferInstanceAs (Decidable (_ ∧ _))

/-- But for its separators, the text is the number in digits, the most significant first. -/
def Denotes (base : Base) (digits : Text) (n : ℕ) : Prop :=
  ∃ ds : List ℕ, ds ≠ [] ∧ List.Forall₂ base.Writes (Atom.withoutSeparators digits) ds ∧
    Nat.ofDigits base.radix ds.reverse = n

/-- The text is a literal of the base, and its digits denote the number. -/
inductive IsLiteral : Base → Text → ℕ → Prop
  | marked {base : Base} {digits : Text} {n : ℕ} (hbase : base = .binary ∨ base = .hexadecimal)
      (h : base.Denotes digits n) : IsLiteral base (base.marker ++ digits) n
  | decimal {digits : Text} {n : ℕ} (hwhole : Whole digits) (h : Denotes .decimal digits n) :
      IsLiteral .decimal digits n

section Denotes

variable {base : Base} {digits : Text} {m n : ℕ}

theorem writes_iff {c : CodePoint} {d : ℕ} :
    base.Writes c d ↔ base.isDigit c ∧ c.digitValue = d := by
  constructor
  · rintro ⟨hd, hc⟩
    have hlt : d < 16 := by cases base <;> simp only [radix] at hd <;> omega
    interval_cases d <;> rcases hc with rfl | rfl <;> cases base <;> revert hd <;> decide
  · rintro ⟨hc, rfl⟩
    obtain ⟨v, hv⟩ := c
    cases base with
    | binary =>
      obtain ⟨hlow, hhigh⟩ : 48 ≤ v ∧ v ≤ 49 := by
        simpa [isDigit, CodePoint.isBinaryDigit, CodePoint.isBetween] using hc
      interval_cases v <;> decide +revert
    | decimal =>
      obtain ⟨hlow, hhigh⟩ : 48 ≤ v ∧ v ≤ 57 := by
        simpa [isDigit, CodePoint.isDigit, CodePoint.isBetween] using hc
      interval_cases v <;> decide +revert
    | hexadecimal =>
      obtain (⟨hlow, hhigh⟩ | ⟨hlow, hhigh⟩) | ⟨hlow, hhigh⟩ :
          ((48 ≤ v ∧ v ≤ 57) ∨ 97 ≤ v ∧ v ≤ 102) ∨ 65 ≤ v ∧ v ≤ 70 := by
        simpa [isDigit, CodePoint.isHexDigit, CodePoint.isDigit, CodePoint.isBetween] using hc
      all_goals interval_cases v <;> decide +revert

theorem forall₂_writes_iff {ds : List ℕ} : List.Forall₂ base.Writes digits ds ↔
    (∀ c ∈ digits, base.isDigit c) ∧ digits.map CodePoint.digitValue = ds := by
  induction digits generalizing ds with
  | nil =>
    rw [List.forall₂_nil_left_iff]
    exact ⟨fun h => ⟨by simp, h.symm⟩, fun h => h.2.symm⟩
  | cons c digits ih =>
    cases ds with
    | nil => simp
    | cons d ds =>
      rw [List.forall₂_cons, writes_iff, ih, List.forall_mem_cons, List.map_cons, List.cons.injEq]
      tauto

theorem digitsValue_eq_ofDigits (base : Base) (digits : Text) : Atom.digitsValue base digits =
    Nat.ofDigits base.radix (digits.map CodePoint.digitValue).reverse := by
  have hstep : (fun (n : ℕ) (c : CodePoint) => n * base.radix + c.digitValue) =
      fun n c => c.digitValue + base.radix * n := by
    funext n c
    ring
  rw [Atom.digitsValue, hstep, Nat.ofDigits_eq_foldr, List.foldr_reverse, List.foldl_map]
  rfl

theorem denotes_iff : base.Denotes digits n ↔ Atom.withoutSeparators digits ≠ [] ∧
    (∀ c ∈ Atom.withoutSeparators digits, base.isDigit c) ∧
      Atom.digitsValue base (Atom.withoutSeparators digits) = n := by
  constructor
  · rintro ⟨ds, hne, hwrites, hn⟩
    obtain ⟨hdigits, rfl⟩ := forall₂_writes_iff.mp hwrites
    exact ⟨by simpa using hne, hdigits, by rw [digitsValue_eq_ofDigits, hn]⟩
  · rintro ⟨hne, hdigits, hn⟩
    rw [digitsValue_eq_ofDigits] at hn
    exact ⟨_, by simpa using hne, forall₂_writes_iff.mpr ⟨hdigits, rfl⟩, hn⟩

/-- Digits denote one number. -/
theorem Denotes.iff_eq (h : base.Denotes digits m) : base.Denotes digits n ↔ n = m := by
  constructor
  · intro hn
    obtain ⟨-, -, rfl⟩ := denotes_iff.mp h
    obtain ⟨-, -, rfl⟩ := denotes_iff.mp hn
    rfl
  · rintro rfl
    exact h

theorem Denotes.isDigit_or (h : base.Denotes digits n) :
    ∀ c ∈ digits, base.isDigit c ∨ c = '_' := by
  obtain ⟨-, hdigits, -⟩ := denotes_iff.mp h
  intro c hc
  by_cases hseparator : c = '_'
  · exact .inr hseparator
  · exact .inl (hdigits c (by simpa [Atom.withoutSeparators, hc] using hseparator))

/-- Digits and separators denote a number, unless they are separators alone. -/
theorem exists_denotes_iff (h : ∀ c ∈ digits, base.isDigit c ∨ c = '_') :
    (∃ n, base.Denotes digits n) ↔ ∃ c ∈ digits, c ≠ '_' := by
  have hdigits : ∀ c ∈ Atom.withoutSeparators digits, base.isDigit c := by
    intro c hc
    obtain ⟨hmem, hseparator⟩ : c ∈ digits ∧ c ≠ '_' := by
      simpa [Atom.withoutSeparators] using hc
    exact (h c hmem).resolve_right hseparator
  have hne : Atom.withoutSeparators digits ≠ [] ↔ ∃ c ∈ digits, c ≠ '_' := by
    simp [Atom.withoutSeparators]
  rw [← hne]
  constructor
  · rintro ⟨n, hn⟩
    exact (denotes_iff.mp hn).1
  · intro hplain
    exact ⟨_, denotes_iff.mpr ⟨hplain, hdigits, rfl⟩⟩

theorem isScalar_of_isDigit {c : CodePoint} (h : base.isDigit c) : c.IsScalar := by
  obtain ⟨-, hc | hc⟩ := writes_iff.mpr ⟨h, rfl⟩
  · rw [hc]
    exact CodePoint.isScalar_ofChar _
  · rw [hc]
    exact CodePoint.isScalar_ofChar _

theorem Denotes.isScalar (h : base.Denotes digits n) : ∀ c ∈ digits, c.IsScalar := by
  intro c hc
  rcases h.isDigit_or c hc with hdigit | rfl
  · exact isScalar_of_isDigit hdigit
  · exact CodePoint.isScalar_ofChar '_'

end Denotes
end Base

namespace Atom

variable {base : Base} {digits : Text} {n : ℕ}

theorem toUnsigned_of_denotes (h : base.Denotes digits n) (bits : ℕ) :
    toUnsigned none base digits bits =
      if n < 2 ^ bits then .ok n else .error (.tooWide digits bits) := by
  obtain ⟨hne, hdigits, rfl⟩ := Base.denotes_iff.mp h
  have hplain : ((withoutSeparators digits).isEmpty ||
      !(withoutSeparators digits).all base.isDigit) = false := by
    simpa using ⟨hne, hdigits⟩
  have hbits : ¬ (bits : ℤ) < 0 := by omega
  have hfits (value : ℕ) : value >>> bits ≠ 0 ↔ ¬ value < 2 ^ bits := by
    rw [Nat.shiftRight_eq_div_pow, ne_eq, Nat.div_eq_zero_iff_lt (by positivity)]
  unfold toUnsigned
  simp only [hplain, Bool.false_eq_true, if_false, Option.filter_none, hbits, Int.toNat_natCast,
    hfits, ite_not]

theorem toUnsigned_of_not_denotes (h : ∀ n, ¬ base.Denotes digits n) (bits : ℤ) :
    toUnsigned none base digits bits = .error (.notDigits base digits) := by
  have hplain : ((withoutSeparators digits).isEmpty ||
      !(withoutSeparators digits).all base.isDigit) = true := by
    by_contra hplain
    obtain ⟨hne, hdigits⟩ := by simpa using hplain
    exact h _ (Base.denotes_iff.mpr ⟨hne, hdigits, rfl⟩)
  unfold toUnsigned
  simp only [hplain, if_true]

section Answers

variable {bits : ℕ}

theorem toUnsigned_eq_ok_iff :
    toUnsigned none base digits bits = .ok n ↔ base.Denotes digits n ∧ n < 2 ^ bits := by
  by_cases h : ∃ m, base.Denotes digits m
  · obtain ⟨m, hm⟩ := h
    rw [toUnsigned_of_denotes hm, hm.iff_eq]
    split_ifs with hlt
    · constructor
      · rintro ⟨⟩
        exact ⟨rfl, hlt⟩
      · rintro ⟨rfl, -⟩
        rfl
    · refine iff_of_false (by simp) ?_
      rintro ⟨rfl, hn⟩
      exact hlt hn
  · rw [not_exists] at h
    simp [toUnsigned_of_not_denotes h, h]

theorem toUnsigned_eq_tooWide_iff :
    toUnsigned none base digits bits = .error (.tooWide digits bits) ↔
      ∃ n, base.Denotes digits n ∧ 2 ^ bits ≤ n := by
  by_cases h : ∃ m, base.Denotes digits m
  · obtain ⟨m, hm⟩ := h
    simp [toUnsigned_of_denotes hm, hm.iff_eq]
  · rw [not_exists] at h
    simp [toUnsigned_of_not_denotes h, h]

theorem toUnsigned_eq_notDigits_iff :
    toUnsigned none base digits bits = .error (.notDigits base digits) ↔
      ∀ n, ¬ base.Denotes digits n := by
  by_cases h : ∃ m, base.Denotes digits m
  · obtain ⟨m, hm⟩ := h
    refine iff_of_false ?_ fun hnone => hnone m hm
    rw [toUnsigned_of_denotes hm]
    split <;> simp
  · rw [not_exists] at h
    simp [toUnsigned_of_not_denotes h, h]

end Answers
end Atom

theorem Whole.isDigit_or {whole : Text} (h : Whole whole) :
    ∀ c ∈ whole, c.isDigit ∨ c = '_' := by
  have hzero : (ofChar '0').isDigit := by decide
  cases h with
  | zero => simp [hzero]
  | zeroLed hd hmore => simpa [hzero, hd] using hmore
  | positive hd _ hmore => simpa [hd] using hmore

/-- The digits of a literal denote a number, except behind a marker where there are none. -/
theorem Spells.forall_not_denotes_iff {f : Features} {text digits : Text} {base : Base}
    (h : Spells f text (.atom (.integer base digits))) : (∀ n, ¬ base.Denotes digits n) ↔
      (base = .binary ∨ base = .hexadecimal) ∧ ∀ c ∈ digits, c = '_' := by
  rw [← not_exists]
  cases h with
  | binary h =>
    have hdigits : ∀ c ∈ digits, Base.binary.isDigit c ∨ c = '_' := h
    simp [Base.exists_denotes_iff hdigits]
  | hexadecimal h =>
    have hdigits : ∀ c ∈ digits, Base.hexadecimal.isDigit c ∨ c = '_' := h
    simp [Base.exists_denotes_iff hdigits]
  | decimal h =>
    obtain ⟨d, more, rfl, hd⟩ := h.eq_cons
    have hdigits : ∀ c ∈ d :: more, Base.decimal.isDigit c ∨ c = '_' := h.isDigit_or
    have hseparator : d ≠ '_' := by
      rintro rfl
      exact absurd hd (by decide)
    simp [Base.exists_denotes_iff hdigits, hseparator]

namespace Atom

/-- Digits convert to a width exactly where they denote a number that fits in it, and any others are
refused: as too wide where they denote a number, and else as no digits. Of the literals that a
reader yields, those fit in no width that have a marker with nothing but separators behind it. -/
theorem toUnsigned_accepts_fitting (base : Base) (digits : Text) :
    (∀ bits : ℕ,
      (∀ n, toUnsigned none base digits bits = .ok n ↔ base.Denotes digits n ∧ n < 2 ^ bits) ∧
      (toUnsigned none base digits bits = .error (.tooWide digits bits) ↔
        ∃ n, base.Denotes digits n ∧ 2 ^ bits ≤ n) ∧
      (toUnsigned none base digits bits = .error (.notDigits base digits) ↔
        ∀ n, ¬ base.Denotes digits n)) ∧
    ∀ (f : Features) (cursor later : Cursor) (span : Span),
      cursor.next f = (.ok (some ⟨.atom (.integer base digits), span⟩), later) →
        ((∀ (bits n : ℕ), toUnsigned none base digits bits ≠ .ok n) ↔
          (base = .binary ∨ base = .hexadecimal) ∧ ∀ c ∈ digits, c = '_') := by
  refine ⟨fun bits => ⟨fun n => toUnsigned_eq_ok_iff, toUnsigned_eq_tooWide_iff,
    toUnsigned_eq_notDigits_iff⟩, ?_⟩
  intro f cursor later span hnext
  obtain ⟨-, middle, -, hstep⟩ := Cursor.step_of_next hnext
  obtain ⟨-, -, hspells, -, -⟩ := hstep
  rw [← hspells.forall_not_denotes_iff]
  constructor
  · intro h n hn
    exact h n n (toUnsigned_eq_ok_iff.mpr ⟨hn, Nat.lt_two_pow_self⟩)
  · intro h bits n hn
    exact h n (toUnsigned_eq_ok_iff.mp hn).1

/-- A reader yields the literal, but no width takes what it has for digits. -/
theorem toUnsigned_refuses_separators :
    (Source.ofText "0x__ 1").cursor.next {} =
      (.ok (some ⟨.atom (.integer .hexadecimal "__"), ⟨⟨1, 0⟩, ⟨1, 4⟩⟩⟩),
        { rest := " 1", offset := 4, position := ⟨1, 4⟩ }) ∧
    ∀ bits n : ℕ, toUnsigned none .hexadecimal "__" bits ≠ .ok n := by
  have hnext : (Source.ofText "0x__ 1").cursor.next {} =
      (.ok (some ⟨.atom (.integer .hexadecimal "__"), ⟨⟨1, 0⟩, ⟨1, 4⟩⟩⟩),
        { rest := " 1", offset := 4, position := ⟨1, 4⟩ }) := by
    decide +kernel
  obtain ⟨-, hreader⟩ := toUnsigned_accepts_fitting .hexadecimal "__"
  exact ⟨hnext, (hreader {} _ _ _ hnext).mpr ⟨.inr rfl, by decide⟩⟩

end Atom

namespace Source

/-- The spelling of a lexeme that the features keep is read as that lexeme alone. -/
theorem tokenize_of_spells {f : Features} {text : Text} {lexeme : Lexeme} {source : Source}
    (hscalar : ∀ c ∈ text, c.IsScalar) (h : Spells f text lexeme)
    (hkeeps : Cursor.Keeps f lexeme) (hsource : source.bytes = text.encode) :
    source.tokenize f = .ok [⟨lexeme, ⟨{}, text.place⟩⟩] := by
  have hcursor : source.cursor = { rest := text } := by
    rw [cursor, hsource]
    exact cursor_ofText hscalar
  have hrest : source.cursor.rest = [] ++ text ++ [] := by simp [hcursor]
  have hfault : source.cursor.fault = none := by rw [hcursor]
  have hread := Cursor.read_of_step
    (.lexeme hrest (by simp) h (by simp [Ends]) fun _ => .inl hfault)
  have hplace : source.cursor.position.advanceOver ([] ++ text) = text.place := by
    rw [hcursor, Text.place_eq]
    rfl
  have hstart : source.cursor.position.advanceOver [] = {} := by
    rw [hcursor]
    rfl
  rw [hplace, hstart] at hread
  have hnil := Cursor.rest_pass source.cursor ([] ++ text) []
  have hend := Cursor.next_of_rest_nil (f := f) hnil hfault
  rw [tokenize_eq_ok_iff, Cursor.tokens_eq, Cursor.next_of_read hread hkeeps]
  dsimp only
  rw [Cursor.tokens_eq, hend]
  exact ⟨rfl, rfl⟩

end Source

/-- A literal is spelled with digits that denote its number. -/
theorem Base.IsLiteral.exists_spells {base : Base} {text : Text} {n : ℕ}
    (h : base.IsLiteral text n) : ∃ digits, base.Denotes digits n ∧
      (Atom.integer base digits).spelling = text ∧ (∀ c ∈ text, c.IsScalar) ∧
        ∀ f, Spells f text (.atom (.integer base digits)) := by
  cases h with
  | @marked _ digits _ hbase h =>
    have hdigits := h.isDigit_or
    have hscalar : ∀ c ∈ base.marker, c.IsScalar := by cases base <;> decide
    refine ⟨digits, h, rfl, List.forall_mem_append.mpr ⟨hscalar, h.isScalar⟩, fun f => ?_⟩
    rcases hbase with rfl | rfl
    · exact .binary hdigits
    · exact .hexadecimal hdigits
  | @decimal digits _ hwhole h => exact ⟨text, h, rfl, h.isScalar, fun f => .decimal hwhole⟩

/-- Whatever the features, a literal is read as the one integer that is spelled like it, and this
converts to the number of the literal where that fits. -/
theorem Source.tokenize_literal {base : Base} {text : Text} {n : ℕ} (h : base.IsLiteral text n) :
    ∃ digits, (Atom.integer base digits).spelling = text ∧
      (∀ (f : Features) (source : Source), source.bytes = text.encode →
        source.tokenize f = .ok [⟨.atom (.integer base digits), ⟨{}, text.place⟩⟩]) ∧
      ∀ bits : ℕ, Atom.toUnsigned none base digits bits =
        if n < 2 ^ bits then .ok n else .error (.tooWide digits bits) := by
  obtain ⟨digits, hdenotes, hspelling, hscalar, hspells⟩ := h.exists_spells
  refine ⟨digits, hspelling, fun f source hsource => ?_, Atom.toUnsigned_of_denotes hdenotes⟩
  have hkeeps : Cursor.Keeps f (.atom (.integer base digits)) := by
    intro hcomment
    cases hcomment
  exact tokenize_of_spells hscalar (hspells f) hkeeps hsource

/-- Letters in both cases, a leading zero and separators around the digits: twelve bits are
needed. -/
theorem Source.tokenize_hexadecimal_with_separators :
    Base.IsLiteral .hexadecimal "0x_0fA_0_" 4000 ∧
      (ofText "0x_0fA_0_").tokenize { unicode := false } =
        .ok [⟨.atom (.integer .hexadecimal "_0fA_0_"), ⟨⟨1, 0⟩, ⟨1, 9⟩⟩⟩] ∧
      Atom.toUnsigned none .hexadecimal "_0fA_0_" 12 = .ok 4000 ∧
      Atom.toUnsigned none .hexadecimal "_0fA_0_" 11 = .error (.tooWide "_0fA_0_" 11) := by
  have hdenotes : Base.Denotes .hexadecimal "_0fA_0_" 4000 :=
    Base.denotes_iff.mpr ⟨by decide, by decide, by decide⟩
  have hliteral : Base.IsLiteral .hexadecimal "0x_0fA_0_" 4000 := .marked (.inr rfl) hdenotes
  obtain ⟨digits, hspelling, hread, hconvert⟩ := tokenize_literal hliteral
  obtain rfl : digits = Text.ofString "_0fA_0_" := List.append_cancel_left hspelling
  exact ⟨hliteral, hread _ _ rfl, hconvert 12, hconvert 11⟩

end SExpression
