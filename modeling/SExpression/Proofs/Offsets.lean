import SExpression.Proofs.Lines

/-! Offsets against places: counting code points from the start of a text and counting lines and
columns name the same points of it, in the same order. -/
namespace SExpression.Text
open CodePoint (ofChar)

variable {text : Text} {p q : Position} {m n : ℕ}

/-- Where one stands behind the first `n` code points. -/
def placeAt (text : Text) (n : ℕ) : Position :=
  ({} : Position).advanceOver (text.take n)

/-- How much the lines before that one take, each with the newline that ends it. -/
def lineStart (text : Text) (number : ℤ) : ℕ :=
  ((text.lines.take (number - 1).toNat).map fun row => row.length + 1).sum

/-- The line is one of the text, the column at most the length of that line, and `n` code points
come before: the lines above with their newlines, and as much of the line as the column says. -/
structure Locates (text : Text) (p : Position) (n : ℕ) : Prop where
  one_le_line : 1 ≤ p.line
  line_le_length : p.line ≤ text.lines.length
  column_nonneg : 0 ≤ p.column
  column_le_length : ∃ row, text.line? p.line = some row ∧ p.column ≤ row.length
  offset_eq : (n : ℤ) = text.lineStart p.line + p.column

/-- The last line counts a newline that the text does not have. -/
theorem sum_lines (text : Text) :
    (text.lines.map fun row => row.length + 1).sum = text.length + 1 := by
  rw [lines]
  induction text with
  | nil => rfl
  | cons c cs ih =>
    by_cases hc : c = '\n'
    · rw [hc, split_cons_self, List.map_cons, List.sum_cons, ih, List.length_nil, List.length_cons]
      omega
    · obtain ⟨piece, later, hcs, hsplit⟩ := exists_split_cons hc cs
      rw [hcs, List.map_cons, List.sum_cons] at ih
      rw [hsplit, List.map_cons, List.sum_cons, List.length_cons, List.length_cons]
      omega

theorem lineStart_length_add_one (text : Text) :
    text.lineStart (text.lines.length + 1) = text.length + 1 := by
  rw [lineStart, add_sub_cancel_right, Int.toNat_natCast, List.take_length, sum_lines]

theorem lineStart_add_one {number : ℤ} {row : Text} (h : text.line? number = some row) :
    text.lineStart (number + 1) = text.lineStart number + row.length + 1 := by
  rw [line?] at h
  split at h
  next => cases h
  next hnumber =>
    have hindex : (number + 1 - 1).toNat = (number - 1).toNat + 1 := by omega
    rw [lineStart, hindex, List.take_add_one, h, Option.toList_some, List.map_append,
      List.sum_append, List.map_singleton, List.sum_singleton, ← add_assoc]
    rfl

theorem lineStart_mono (text : Text) : Monotone text.lineStart := by
  intro number later h
  have hindex : (number - 1).toNat ≤ (later - 1).toNat := by omega
  exact ((List.take_sublist_take_left hindex).map _).sum_le_sum fun _ _ => Nat.zero_le _

theorem lineStart_place (before after : Text) :
    ((before ++ after).lineStart before.place.line : ℤ) + before.place.column = before.length := by
  induction before using List.reverseRecOn generalizing after with
  | nil => rfl
  | append_singleton before c ih =>
    rw [List.append_assoc, List.singleton_append, List.length_append, List.length_singleton]
    by_cases hc : c = '\n'
    · -- All that comes before this place is whole lines.
      have hindex : (1 + (lines before).length - 1 : ℤ).toNat = (lines before).length := by omega
      rw [hc, place_append_newline, lineStart, hindex, lines_append_newline, List.take_left' rfl,
        sum_lines, add_zero]
    · have hplace := ih (c :: after)
      rw [place_append_of_ne before hc]
      push_cast
      omega

theorem locates_place (before after : Text) :
    (before ++ after).Locates before.place before.length where
  one_le_line := le_add_of_nonneg_right (Int.natCast_nonneg _)
  line_le_length := by
    rw [line_place, length_lines, List.count_append]
    push_cast
    omega
  column_nonneg := column_place_nonneg before
  column_le_length := ⟨_, line?_place before after, column_place_le_length before after⟩
  offset_eq := (lineStart_place before after).symm

theorem locates_placeAt (h : n ≤ text.length) : text.Locates (text.placeAt n) n := by
  have hlocates := locates_place (text.take n) (text.drop n)
  rwa [List.take_append_drop, place_eq, List.length_take_of_le h] at hlocates

namespace Locates

/-- A line ends before any later one starts. -/
theorem lt_lineStart (h : text.Locates p n) {later : ℤ} (hlater : p.line < later) :
    n < text.lineStart later := by
  obtain ⟨row, hrow, hcolumn⟩ := h.column_le_length
  have hoffset := h.offset_eq
  have hstep := lineStart_add_one hrow
  have hmono : text.lineStart (p.line + 1) ≤ text.lineStart later := text.lineStart_mono hlater
  omega

theorem le_length (h : text.Locates p n) : n ≤ text.length := by
  have hlt := h.lt_lineStart (Int.lt_add_one_of_le h.line_le_length)
  rw [lineStart_length_add_one] at hlt
  exact Nat.le_of_lt_succ hlt

/-- Places that come later are further from the start. -/
theorem lt_of_lt (hp : text.Locates p m) (hq : text.Locates q n) (h : p < q) : m < n := by
  have hm := hp.offset_eq
  have hn := hq.offset_eq
  rcases Position.lt_iff.mp h with hline | ⟨hline, hcolumn⟩
  · have hlt := hp.lt_lineStart hline
    have hnonneg := hq.column_nonneg
    omega
  · rw [hline] at hm
    omega

theorem position_unique (hp : text.Locates p n) (hq : text.Locates q n) : p = q := by
  rcases lt_trichotomy p q with hlt | heq | hgt
  · exact absurd (hp.lt_of_lt hq hlt) (lt_irrefl n)
  · exact heq
  · exact absurd (hq.lt_of_lt hp hgt) (lt_irrefl n)

end Locates

theorem strictMonoOn_placeAt (text : Text) : StrictMonoOn text.placeAt (Set.Iic text.length) := by
  intro m _ n hn hlt
  obtain ⟨part, hpart, htake⟩ := exists_take_eq_append hlt hn
  rw [placeAt, placeAt, htake, Position.advanceOver_append]
  exact Position.lt_advanceOver _ hpart

/-- Offsets and places are the same thing. Further offsets have later places, so that no two share
one; the offset of a place is what its line and column count; and every column of every line is the
place of the offset that it counts. -/
theorem offsets_are_places (text : Text) :
    StrictMonoOn text.placeAt (Set.Iic text.length) ∧
    Set.InjOn text.placeAt (Set.Iic text.length) ∧
    (∀ n ≤ text.length, text.Locates (text.placeAt n) n) ∧
    ∀ p n, text.Locates p n → n ≤ text.length ∧ text.placeAt n = p := by
  refine ⟨strictMonoOn_placeAt text, (strictMonoOn_placeAt text).injOn, ?_, ?_⟩
  · intro n hn
    exact locates_placeAt hn
  · intro p n h
    exact ⟨h.le_length, (locates_placeAt h.le_length).position_unique h⟩

/-- The separator of the first line ends no line, and the newline at the end opens an empty one. -/
theorem offsets_are_places_behind_last_newline :
    Locates "a\u2028b\n\nc\n" (placeAt "a\u2028b\n\nc\n" 3) 3 ∧
    placeAt "a\u2028b\n\nc\n" 3 = ⟨1, 3⟩ ∧
    Locates "a\u2028b\n\nc\n" ⟨4, 0⟩ 7 ∧ placeAt "a\u2028b\n\nc\n" 7 = ⟨4, 0⟩ := by
  have hlast : Locates "a\u2028b\n\nc\n" ⟨4, 0⟩ 7 :=
    { one_le_line := by decide
      line_le_length := by decide
      column_nonneg := by decide
      column_le_length := ⟨[], by decide, by decide⟩
      offset_eq := by decide }
  obtain ⟨-, -, hlocates, hplace⟩ := offsets_are_places "a\u2028b\n\nc\n"
  exact ⟨hlocates 3 (by decide), by decide, hlast, (hplace _ _ hlast).2⟩

end SExpression.Text
