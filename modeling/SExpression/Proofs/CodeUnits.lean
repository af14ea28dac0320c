import SExpression.Proofs.Lines

/-! Texts in UTF-16: each code unit is taken for a code point of its own, so that lines, places and
slices mean the same of both. Places are carried over, and none comes to lie within a pair of
surrogates. -/
namespace SExpression
open CodePoint (ofChar)

namespace CodePoint

def highSurrogate (c : CodePoint) : CodePoint :=
  ⟨0xD800 + (c.value - 0x10000) / 0x400, by have := c.value_lt; omega⟩

def lowSurrogate (c : CodePoint) : CodePoint :=
  ⟨0xDC00 + (c.value - 0x10000) % 0x400, by omega⟩

/-- A surrogate that is a code point by itself stands for itself. -/
def units (c : CodePoint) : Text :=
  if c.value < 0x10000 then [c] else [c.highSurrogate, c.lowSurrogate]

def IsHighSurrogate (c : CodePoint) : Prop :=
  0xD800 ≤ c.value ∧ c.value < 0xDC00

def IsLowSurrogate (c : CodePoint) : Prop :=
  0xDC00 ≤ c.value ∧ c.value < 0xE000

theorem length_units (c : CodePoint) : c.units.length = c.utf16Length := by
  unfold units utf16Length
  split <;> rfl

theorem units_newline : (ofChar '\n').units = [ofChar '\n'] := by decide

theorem ne_newline_of_mem_units {c unit : CodePoint} (hc : c ≠ '\n') (h : unit ∈ c.units) :
    unit ≠ '\n' := by
  unfold units at h
  split at h
  · obtain rfl := List.mem_singleton.mp h
    exact hc
  · have hhigh : 0xD800 ≤ unit.value := by
      rcases List.mem_pair.mp h with rfl | rfl
      · exact Nat.le_add_right _ _
      · exact (by decide : 0xD800 ≤ 0xDC00).trans (Nat.le_add_right _ _)
    rintro rfl
    revert hhigh
    decide

/-- The last unit of what UTF-8 can carry starts no pair. -/
theorem exists_units_eq_concat {c : CodePoint} (hc : c.IsScalar) :
    ∃ start last, c.units = start ++ [last] ∧ ¬ last.IsHighSurrogate := by
  unfold units
  split
  · refine ⟨[], c, rfl, ?_⟩
    rintro ⟨hlow, hhigh⟩
    rcases hc with hc | hc <;> omega
  · refine ⟨[c.highSurrogate], c.lowSurrogate, rfl, ?_⟩
    rintro ⟨-, hhigh⟩
    exact absurd hhigh (Nat.not_lt.mpr (Nat.le_add_right _ _))

end CodePoint

namespace Text

/-- The text in UTF-16. -/
def units (text : Text) : Text :=
  text.flatMap CodePoint.units

example : (Text.units "a😀").map CodePoint.value = [0x61, 0xD83D, 0xDE00] := by decide

@[simp] theorem units_append (a b : Text) : units (a ++ b) = a.units ++ b.units :=
  List.flatMap_append

@[simp] theorem units_singleton (c : CodePoint) : units [c] = c.units :=
  List.flatMap_singleton _ _

theorem length_units (text : Text) : text.units.length = text.utf16Length := by
  induction text with
  | nil => rfl
  | cons c cs ih =>
    have hc : utf16Length [c] = c.utf16Length := Nat.zero_add _
    rw [← List.singleton_append, units_append, utf16Length_append, List.length_append, ih,
      units_singleton, CodePoint.length_units, hc]

theorem count_newline_units (text : Text) :
    text.units.count (ofChar '\n') = text.count (ofChar '\n') := by
  induction text with
  | nil => rfl
  | cons c cs ih =>
    rw [← List.singleton_append, units_append, List.count_append, List.count_append, ih,
      units_singleton]
    by_cases hc : c = '\n'
    · rw [hc, CodePoint.units_newline]
    · have hunits : c.units.count (ofChar '\n') = 0 :=
        List.count_eq_zero.mpr fun hmem => CodePoint.ne_newline_of_mem_units hc hmem rfl
      rw [hunits, List.count_singleton, if_neg (by simpa using hc)]

theorem rtakeWhile_units (text : Text) :
    text.units.rtakeWhile (· ≠ ofChar '\n') = units (text.rtakeWhile (· ≠ ofChar '\n')) := by
  induction text using List.reverseRecOn with
  | nil => rfl
  | append_singleton text c ih =>
    rw [units_append, units_singleton]
    by_cases hc : c = '\n'
    · rw [hc, CodePoint.units_newline, List.rtakeWhile_concat_neg _ _ _ (by simp),
        List.rtakeWhile_concat_neg _ _ _ (by simp)]
      rfl
    · have hunits : ∀ unit ∈ c.units.reverse, decide (unit ≠ ofChar '\n') := by
        intro unit hunit
        simpa using CodePoint.ne_newline_of_mem_units hc (List.mem_reverse.mp hunit)
      rw [List.rtakeWhile_concat_pos _ _ _ (by simpa using hc), units_append, units_singleton, ← ih,
        List.rtakeWhile, List.rtakeWhile, List.reverse_append,
        List.takeWhile_append_of_pos hunits, List.reverse_append, List.reverse_reverse]

theorem units_ne_nil {text : Text} (h : text ≠ []) : text.units ≠ [] := by
  apply List.ne_nil_of_length_pos
  rw [length_units]
  exact utf16Length_pos h

/-- In UTF-16 a place stays on its line, and its column is the length of what comes before it
there. -/
theorem place_units (text : Text) : text.units.place =
    ⟨text.place.line, utf16Length (text.rtakeWhile (· ≠ ofChar '\n'))⟩ := by
  rw [place, count_newline_units, rtakeWhile_units, length_units]
  rfl

/-- Starts of one text that end at the same place are the same. -/
theorem eq_of_place_eq {a b c d : Text} (h : a ++ b = c ++ d) (hplace : a.place = c.place) :
    a = c := by
  have hlength : a.length = c.length := by
    have hoffset := offset?_place a b
    rw [h, hplace, offset?_place c d] at hoffset
    exact (Option.some.inj hoffset).symm
  exact (List.append_inj h hlength).1

/-- The place lies behind the first unit of a pair of surrogates. -/
def SplitsPair (units : Text) (p : Position) : Prop :=
  ∃ before high low after, units = before ++ high :: low :: after ∧ high.IsHighSurrogate ∧
    low.IsLowSurrogate ∧ p = place (before ++ [high])

/-- Behind what UTF-8 can carry, a place does not lie within a pair. -/
theorem not_splitsPair_place_units {before : Text} (h : ∀ c ∈ before, c.IsScalar) (after : Text) :
    ¬ (before ++ after).units.SplitsPair before.units.place := by
  rintro ⟨left, high, low, right, hunits, hhigh, -, hplace⟩
  have hwhole : before.units ++ after.units = (left ++ [high]) ++ low :: right := by
    rw [← units_append, hunits, List.append_assoc]
    rfl
  have hleft := eq_of_place_eq hwhole hplace
  rcases List.eq_nil_or_concat before with rfl | ⟨rest, c, rfl⟩
  · simp [units] at hleft
  · obtain ⟨start, last, hlast, hnot⟩ := CodePoint.exists_units_eq_concat (h c (by simp))
    rw [List.concat_eq_append, units_append, units_singleton, hlast, ← List.append_assoc] at hleft
    obtain ⟨-, heq⟩ := List.append_inj' hleft rfl
    obtain rfl := List.singleton_inj.mp heq
    exact hnot hhigh

end Text
end SExpression
