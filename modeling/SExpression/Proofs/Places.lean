import Mathlib.Data.List.DropRight
import Mathlib.Data.Prod.Lex
import Mathlib.Tactic
import SExpression.Position

/-! Places against texts: advancing over a text counts its newlines and what comes after the last
of them, places are ordered as the texts before them, and two places select the text between. -/
namespace SExpression

namespace Position

/-- By line, then by column. -/
instance : LinearOrder Position :=
  LinearOrder.lift' (fun p => toLex (p.line, p.column)) (by
    intro p q h
    obtain ⟨hline, hcolumn⟩ := Prod.mk.inj (toLex.injective h)
    cases p
    cases q
    simp_all)

theorem lt_iff {p q : Position} :
    p < q ↔ p.line < q.line ∨ p.line = q.line ∧ p.column < q.column :=
  Prod.Lex.toLex_lt_toLex

theorem lt_advance (p : Position) (c : CodePoint) : p < p.advance c := by
  rw [lt_iff]
  unfold advance
  split
  · left
    exact lt_add_one p.line
  · right
    exact ⟨rfl, lt_add_one p.column⟩

theorem le_advanceOver (p : Position) (text : Text) : p ≤ p.advanceOver text := by
  induction text generalizing p with
  | nil => exact le_rfl
  | cons c cs ih => exact (lt_advance p c).le.trans (ih (p.advance c))

theorem lt_advanceOver (p : Position) {text : Text} (h : text ≠ []) : p < p.advanceOver text := by
  obtain ⟨c, cs, rfl⟩ := List.exists_cons_of_ne_nil h
  exact (lt_advance p c).trans_le (le_advanceOver (p.advance c) cs)

end Position

namespace Text

/-- Where the text after `before` starts: lines are counted by the newlines, columns by the code
points after the last of them. -/
def place (before : Text) : Position :=
  ⟨1 + before.count (CodePoint.ofChar '\n'),
    (before.rtakeWhile fun c : CodePoint => c ≠ '\n').length⟩

theorem line_place (before : Text) : before.place.line = 1 + before.count (CodePoint.ofChar '\n') :=
  rfl

theorem toNat_column_place (before : Text) :
    before.place.column.toNat = (before.rtakeWhile fun c : CodePoint => c ≠ '\n').length :=
  rfl

theorem column_place_nonneg (before : Text) : 0 ≤ before.place.column :=
  Int.natCast_nonneg _

theorem place_eq (before : Text) : before.place = ({} : Position).advanceOver before := by
  induction before using List.reverseRecOn with
  | nil => rfl
  | append_singleton before c ih =>
    rw [Position.advanceOver_append, ← ih]
    simp only [place, Position.advanceOver_cons, Position.advanceOver_nil, Position.advance]
    by_cases h : c = '\n'
    · rw [List.rtakeWhile_concat_neg _ _ _ (by simp [h])]
      simp [h, add_assoc]
    · rw [List.rtakeWhile_concat_pos _ _ _ (by simp [h])]
      simp [h]

theorem place_append (a b : Text) : (a ++ b).place = a.place.advanceOver b := by
  rw [place_eq, place_eq, Position.advanceOver_append]

/-- How much of the text comes before the place, if it is one of the text. -/
def offset? (text : Text) (p : Position) : Option ℕ :=
  (List.range (text.length + 1)).find? fun n => place (text.take n) = p

/-- The text from the start of the span to its end, if they are places of the text. -/
def slice? (text : Text) (s : Span) : Option Text := do
  let start ← text.offset? s.start
  let stop ← text.offset? s.stop
  if start ≤ stop then some ((text.take stop).drop start) else none

theorem offset?_place (before after : Text) :
    (before ++ after).offset? before.place = some before.length := by
  rw [offset?, List.find?_range_eq_some]
  refine ⟨by simp, by simp, ?_⟩
  intro n hn
  have hlt : place (before.take n) < before.place := by
    have hne : before.drop n ≠ [] := by simpa using hn
    conv_rhs => rw [← List.take_append_drop n before, place_append]
    exact Position.lt_advanceOver _ hne
  rw [List.take_append_of_le_length hn.le]
  simpa using hlt.ne

theorem slice?_append (before part after : Text) :
    (before ++ part ++ after).slice? ⟨before.place, (before ++ part).place⟩ = some part := by
  have hstart := offset?_place before (part ++ after)
  rw [← List.append_assoc] at hstart
  have hstop := offset?_place (before ++ part) after
  have hpart :
      ((before ++ part ++ after).take (before ++ part).length).drop before.length = part := by
    rw [List.take_left, List.drop_left]
  simp only [slice?, hstart, hstop, Option.bind_eq_bind, Option.bind_some, hpart]
  simp

example : slice? "ab\ncd" ⟨⟨1, 1⟩, ⟨2, 1⟩⟩ = some "b\nc" := by decide

end Text
end SExpression
