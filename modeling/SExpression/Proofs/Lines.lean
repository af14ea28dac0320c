import SExpression.Proofs.Places
import SExpression.Text.Lines
import SExpression.Text.Utf16

/-! Lines against places: the line on which a place lies is cut from the text at the newlines
around it, and a column is the same in code points and in UTF-16 code units. -/
namespace SExpression
open CodePoint (ofChar)

namespace Text

theorem split_append_cons (separator : CodePoint) (a b : Text) :
    split separator (a ++ separator :: b) = split separator a ++ split separator b := by
  induction a with
  | nil => exact split_cons_self separator b
  | cons c cs ih =>
    rw [List.cons_append]
    by_cases hc : c = separator
    · rw [hc, split_cons_self, split_cons_self, ih, List.cons_append]
    · obtain ⟨piece, later, hcs, hsplit⟩ := exists_split_cons hc cs
      obtain ⟨_, _, hwhole, hsplitWhole⟩ := exists_split_cons hc (cs ++ separator :: b)
      rw [ih, hcs, List.cons_append] at hwhole
      obtain ⟨rfl, rfl⟩ := List.cons.inj hwhole
      rw [hsplitWhole, hsplit, List.cons_append]

theorem length_split (separator : CodePoint) (text : Text) :
    (split separator text).length = text.count separator + 1 := by
  induction text with
  | nil => rfl
  | cons c cs ih =>
    by_cases hc : c = separator
    · rw [hc, split_cons_self, List.length_cons, ih, List.count_cons_self]
    · obtain ⟨piece, later, hcs, hsplit⟩ := exists_split_cons hc cs
      rw [hsplit, List.length_cons, ← List.length_cons (a := piece), ← hcs, ih,
        List.count_cons_of_ne hc]

theorem head?_split (separator : CodePoint) (text : Text) :
    (split separator text).head? = some (text.takeWhile (· ≠ separator)) := by
  induction text with
  | nil => rfl
  | cons c cs ih =>
    by_cases hc : c = separator
    · rw [hc, split_cons_self]
      simp
    · obtain ⟨piece, later, hcs, hsplit⟩ := exists_split_cons hc cs
      rw [hcs, List.head?_cons, Option.some_inj] at ih
      simp [hsplit, ih, hc]

theorem lines_append_newline (a b : Text) :
    (a ++ ofChar '\n' :: b).lines = a.lines ++ b.lines :=
  split_append_cons '\n' a b

theorem length_lines (text : Text) : text.lines.length = text.count (ofChar '\n') + 1 :=
  length_split '\n' text

theorem head?_lines (text : Text) :
    text.lines.head? = some (text.takeWhile (· ≠ ofChar '\n')) :=
  head?_split '\n' text

/-- Behind a newline starts the first line that is none of those before. -/
theorem place_append_newline (before : Text) :
    (before ++ [ofChar '\n']).place = ⟨1 + before.lines.length, 0⟩ := by
  rw [place_append, Position.advanceOver_cons, Position.advanceOver_nil, Position.advance,
    if_pos rfl, line_place, length_lines]
  simp [add_assoc]

theorem place_append_of_ne {c : CodePoint} (before : Text) (h : c ≠ '\n') :
    (before ++ [c]).place = ⟨before.place.line, before.place.column + 1⟩ := by
  rw [place_append, Position.advanceOver_cons, Position.advanceOver_nil, Position.advance, if_neg h]

/-- The line on which a place lies: what comes before it behind the last newline, then what comes
up to the next one. -/
def lineAround (before after : Text) : Text :=
  before.rtakeWhile (· ≠ ofChar '\n') ++ after.takeWhile (· ≠ ofChar '\n')

theorem line?_succ (text : Text) (n : ℕ) : text.line? (1 + n) = text.lines[n]? := by
  have hpos : ¬ (1 + n : ℤ) < 1 := by omega
  have hindex : (1 + n - 1 : ℤ).toNat = n := by omega
  rw [line?, if_neg hpos, hindex]

theorem line?_place (before after : Text) :
    (before ++ after).line? before.place.line = some (lineAround before after) := by
  induction before using List.reverseRecOn generalizing after with
  | nil =>
    show after.line? (1 + (0 : ℕ)) = _
    rw [line?_succ, ← List.head?_eq_getElem?]
    exact head?_lines after
  | append_singleton before c ih =>
    rw [List.append_assoc, List.singleton_append]
    show _ = some (lineAround (before ++ [c]) after)
    by_cases hc : c = '\n'
    · -- The line of this place is the first one behind the newline.
      rw [hc, place_append_newline, line?_succ, lines_append_newline,
        List.getElem?_append_right (le_refl _), Nat.sub_self, ← List.head?_eq_getElem?,
        head?_lines]
      simp [lineAround, List.rtakeWhile_concat_neg]
    · rw [place_append_of_ne before hc, ih (c :: after)]
      simp [lineAround, List.rtakeWhile_concat_pos, hc]

theorem column_le_length_lineAround (before after : Text) :
    before.place.column.toNat ≤ (lineAround before after).length := by
  rw [lineAround, List.length_append, toNat_column_place]
  exact Nat.le_add_right _ _

theorem column_place_le_length (before after : Text) :
    before.place.column ≤ (lineAround before after).length :=
  Int.ofNat_le.mpr (column_le_length_lineAround before after)

theorem utf16Length_append (a b : Text) :
    (a ++ b).utf16Length = a.utf16Length + b.utf16Length := by
  have hfoldl (text : Text) (start : ℕ) :
      text.foldl (fun length c => length + c.utf16Length) start = start + text.utf16Length := by
    induction text generalizing start with
    | nil => rfl
    | cons c cs ih =>
      rw [utf16Length, List.foldl_cons, List.foldl_cons, ih, ih (0 + c.utf16Length)]
      omega
  rw [utf16Length, List.foldl_append, hfoldl b]
  rfl

theorem utf16Length_pos {text : Text} (h : text ≠ []) : 0 < text.utf16Length := by
  obtain ⟨c, cs, rfl⟩ := List.exists_cons_of_ne_nil h
  have hc : 0 < utf16Length [c] := by
    simp only [utf16Length, CodePoint.utf16Length, List.foldl_cons, List.foldl_nil]
    split <;> simp
  rw [← List.singleton_append, utf16Length_append]
  omega

/-- Up to a further offset stands some more of the text. -/
theorem exists_take_eq_append {text : Text} {m n : ℕ} (h : m < n) (hn : n ≤ text.length) :
    ∃ part, part ≠ [] ∧ text.take n = text.take m ++ part := by
  refine ⟨(text.drop m).take (n - m), ?_, ?_⟩
  · apply List.ne_nil_of_length_pos
    rw [List.length_take, List.length_drop]
    omega
  · rw [← List.take_add, Nat.add_sub_cancel' h.le]

theorem utf16Length_take_lt {line : Text} {m n : ℕ} (h : m < n) (hn : n ≤ line.length) :
    utf16Length (line.take m) < utf16Length (line.take n) := by
  obtain ⟨part, hpart, htake⟩ := exists_take_eq_append h hn
  have hpos := utf16Length_pos hpart
  rw [htake, utf16Length_append]
  omega

/-- No two columns of a line are the same in UTF-16. -/
theorem utf16Length_take_inj {line : Text} {m n : ℕ} (hm : m ≤ line.length) (hn : n ≤ line.length)
    (h : utf16Length (line.take m) = utf16Length (line.take n)) : m = n := by
  rcases lt_trichotomy m n with hlt | heq | hgt
  · exact absurd h (utf16Length_take_lt hlt hn).ne
  · exact heq
  · exact absurd h (utf16Length_take_lt hgt hm).ne'

end Text
end SExpression
