import SExpression.Proofs.Agreement
import SExpression.Proofs.Carets
import SExpression.Proofs.Causes
import SExpression.Proofs.CodeUnits

/-! What an editor highlights: the range of a diagnostic, read in UTF-16 code units, selects the
span of the error or the code point that it is told of. -/
namespace SExpression
open CodePoint (ofChar)

namespace Text

/-- What stands in its line at the column of a place comes right behind it. -/
theorem exists_of_getElem?_lineAround {before after : Text} {c : CodePoint}
    (h : (lineAround before after)[before.place.column.toNat]? = some c) :
    c ≠ '\n' ∧ ∃ more, after = c :: more := by
  rw [lineAround, toNat_column_place, List.getElem?_append_right le_rfl, Nat.sub_self,
    ← List.head?_eq_getElem?, List.head?_takeWhile, Option.filter_eq_some_iff] at h
  exact ⟨by simpa using h.2, List.head?_eq_some_iff.mp h.1⟩

theorem take_lineAround (before after : Text) :
    (lineAround before after).take before.place.column.toNat =
      before.rtakeWhile (· ≠ ofChar '\n') :=
  List.take_left

/-- Between two places stands some of the text. -/
theorem HasSpan.exists_part {text : Text} {s : Span} (h : text.HasSpan s) :
    ∃ before part after, text = before ++ part ++ after ∧ part ≠ [] ∧
      s = ⟨before.place, (before ++ part).place⟩ := by
  obtain ⟨start, stop⟩ := s
  obtain ⟨⟨before, later, htext, rfl⟩, ⟨whole, after, hwhole, rfl⟩, hlt⟩ := h
  have hbefore : before <+: text := ⟨later, htext.symm⟩
  have hprefix : whole <+: text := ⟨after, hwhole.symm⟩
  rcases List.prefix_or_prefix_of_prefix hbefore hprefix with ⟨part, rfl⟩ | ⟨part, rfl⟩
  · refine ⟨before, part, after, hwhole, ?_, rfl⟩
    rintro rfl
    rw [List.append_nil] at hlt
    exact lt_irrefl _ hlt
  · rw [place_append] at hlt
    exact absurd hlt (Position.le_advanceOver _ part).not_gt

end Text

namespace Place

/-- The place among code units, counted as positions are. -/
def position (p : Place) : Position :=
  ⟨p.line + 1, p.character⟩

/-- The line is one of the text, and the column is at most its length in code units. -/
def LiesIn (p : Place) (text : Text) : Prop :=
  ∃ row, text.line? (p.line + 1) = some row ∧ 0 ≤ p.character ∧ p.character ≤ row.utf16Length

theorem ofPosition_place (before after : Text) : ofPosition (before ++ after) before.place =
    ⟨before.place.line - 1, Text.utf16Length (before.rtakeWhile (· ≠ ofChar '\n'))⟩ := by
  rw [ofPosition, Text.line?_place]
  dsimp only
  rw [Text.take_lineAround]

theorem position_ofPosition_place (before after : Text) :
    (ofPosition (before ++ after) before.place).position = before.units.place := by
  rw [ofPosition_place, Text.place_units, position, sub_add_cancel]

theorem not_splitsPair_ofPosition_place {before : Text} (h : ∀ c ∈ before, c.IsScalar)
    (after : Text) :
    ¬ (before ++ after).units.SplitsPair (ofPosition (before ++ after) before.place).position := by
  rw [position_ofPosition_place]
  exact Text.not_splitsPair_place_units h after

theorem liesIn_ofPosition_place (before after : Text) :
    (ofPosition (before ++ after) before.place).LiesIn (before ++ after) := by
  rw [ofPosition_place]
  refine ⟨Text.lineAround before after, ?_, Int.natCast_nonneg _, ?_⟩
  · rw [sub_add_cancel]
    exact Text.line?_place before after
  · rw [Text.lineAround, Text.utf16Length_append]
    exact Int.ofNat_le.mpr (Nat.le_add_right _ _)

end Place

namespace Cursor

variable {f : Features} {limit : Option ℤ} {cursor : Cursor}

/-- An error of reading all elements is one of reading the next one behind others. -/
theorem exists_requests_of_elements {e : ParseError}
    (h : (cursor.elements f limit).error = some e) :
    ∃ requests, ((cursor.serveAll f limit requests).element f limit).1 = .error e := by
  fun_induction elements f limit cursor with
  | case1 cursor d later helement =>
    cases h
    exact ⟨[], by rw [serveAll, List.foldl_nil, helement]⟩
  | case2 => cases h
  | case3 cursor element later helement _ ih =>
    obtain ⟨requests, hrequests⟩ := ih h
    refine ⟨.element :: requests, ?_⟩
    rw [serveAll, List.foldl_cons, serve, helement]
    exact hrequests

end Cursor

namespace TokenError

/-- Told where a line or the text has ended, so that no character is there to show it on. -/
def IsAtLineEnd : TokenError → Prop
  | .unterminatedBytes _ => True
  | .brokenBytes _ found => found = '\n'
  | _ => False

variable {e : TokenError} {text row : Text} {broken : CodePoint → Prop}

/-- Such errors, and no others, are seen behind the last character of their line. -/
theorem IsSeen.isAtLineEnd_iff (h : e.IsSeen text row broken)
    (hline : text.line? e.position.line = some row) (hrow : row.IsOneLine) :
    e.IsAtLineEnd ↔ row[e.position.column.toNat]? = none := by
  cases e with
  | badData cause offset p =>
    obtain ⟨c, hc, -⟩ := h
    exact iff_of_false id (by simp [position, hc])
  | unterminatedString p reached =>
    obtain ⟨hc, -⟩ := h
    exact iff_of_false id (by simp [position, hc])
  | unterminatedBytes p =>
    obtain rfl : p = text.place := h
    have hwhole := Text.line?_place text []
    rw [List.append_nil] at hwhole
    obtain rfl := Option.some.inj (hline.symm.trans hwhole)
    refine iff_of_true trivial (Option.eq_none_iff_forall_ne_some.mpr fun c hc => ?_)
    obtain ⟨-, more, hmore⟩ := Text.exists_of_getElem?_lineAround hc
    cases hmore
  | brokenBytes p c =>
    rcases h with hc | ⟨rfl, hcolumn⟩
    · refine iff_of_false ?_ (by simp [position, hc])
      rintro rfl
      exact hrow (List.mem_of_getElem? hc)
    · refine iff_of_true rfl (List.getElem?_eq_none ?_)
      simp [position, hcolumn]
  | unprocessable p c => exact iff_of_false id (by simp [position, show _ = _ from h])

end TokenError

namespace Source

variable {f : Features} {limit : Option ℤ} {text : Text}

/-- An error that is not one of reading tokens has its span in what was read, where no surrogate can
be. -/
theorem exists_part_of_parse {e : ParseError}
    (h : (ofText text).parse f limit = .error e) (he : ∀ d, e ≠ .token d) :
    ∃ before part after, text = before ++ part ++ after ∧ part ≠ [] ∧
      (∀ c ∈ before ++ part, c.IsScalar) ∧ e.span = ⟨before.place, (before ++ part).place⟩ := by
  have hspan : (ofText text).cursor.rest.HasSpan e.span := by
    have hlies := liesIn_of_elements (.refl _) (parse_eq_error_iff.mp h)
    cases e with
    | token d => exact absurd rfl (he d)
    | _ => exact hlies
  obtain ⟨more, hshown, -⟩ := shows_ofText text
  obtain ⟨before, part, after, hrest, hpart, hspan⟩ := hspan.exists_part
  refine ⟨before, part, after ++ more, ?_, hpart, ?_, hspan⟩
  · rw [← List.append_assoc, ← hrest]
    exact hshown
  · intro c hc
    have hmem : c ∈ (ofText text).cursor.rest := by
      rw [hrest]
      exact List.mem_append_left _ hc
    exact Utf8.isScalar_of_mem_decode c hmem

/-- What is seen of an error of reading tokens lies around its place in the text. -/
theorem exists_isSeen_of_parse {e : TokenError}
    (h : (ofText text).parse f limit = .error (.token e)) :
    ∃ before after, text = before ++ after ∧ e.position = before.place ∧
      e.IsSeen text (Text.lineAround before after) fun c => c.isSurrogate := by
  obtain ⟨before, after, htext, hplace⟩ := (shows_ofText text).hasPlace_of_parse h
  have hplace : e.position = before.place := hplace
  obtain ⟨requests, herror⟩ := Cursor.exists_requests_of_elements (parse_eq_error_iff.mp h)
  have htold : ((ofText text).cursor.serveAll f limit requests).tokenError? f limit .element =
      some e := by
    rw [Cursor.tokenError?, herror]
  have hcause := (exposes_ofText text).pointsAtCause (by decide) htold
  obtain ⟨row, hline, -, -, hseen⟩ := hcause.seen
  rw [htext, hplace, Text.line?_place, Option.some_inj] at hline
  rw [← hline] at hseen
  exact ⟨before, after, htext, hplace, hseen⟩

end Source

namespace Diagnostic

/-- The range is not empty, lies in the text, and selects the part of it. -/
structure Selects (d : Diagnostic) (text part : Text) : Prop where
  start_liesIn : d.start.LiesIn text
  stop_liesIn : d.stop.LiesIn text
  start_lt_stop : d.start.position < d.stop.position
  slice?_eq : text.units.slice? ⟨d.start.position, d.stop.position⟩ = some part.units

theorem selects_ofRange {part : Text} (h : part ≠ []) (before after message : Text) :
    let text := before ++ part ++ after
    (ofRange text before.place (before ++ part).place message).Selects text part := by
  intro text
  have htext : text = before ++ (part ++ after) := List.append_assoc _ _ _
  have hstart := Place.position_ofPosition_place before (part ++ after)
  have hstop := Place.position_ofPosition_place (before ++ part) after
  rw [← htext] at hstart
  constructor
  · show (Place.ofPosition text before.place).LiesIn text
    rw [htext]
    exact Place.liesIn_ofPosition_place before (part ++ after)
  · exact Place.liesIn_ofPosition_place (before ++ part) after
  · show (Place.ofPosition text before.place).position <
      (Place.ofPosition text (before ++ part).place).position
    rw [hstart, hstop, Text.units_append, Text.place_append]
    exact Position.lt_advanceOver _ (Text.units_ne_nil h)
  · show text.units.slice? ⟨(Place.ofPosition text before.place).position,
      (Place.ofPosition text (before ++ part).place).position⟩ = some part.units
    rw [hstart, hstop, Text.units_append, Text.units_append]
    exact Text.slice?_append _ _ _

/-- Where an error is not one of reading tokens, its one diagnostic selects what its span does, and
neither end of the range lies within a pair of surrogates. -/
theorem collect_selects_span {f : Features} {text : Text} {e : ParseError}
    (h : (Source.ofText text).parse f none = .error e) (he : ∀ d, e ≠ .token d) :
    ∃ d part, collect f text = [d] ∧ text.slice? e.span = some part ∧ d.Selects text part ∧
      ¬ text.units.SplitsPair d.start.position ∧ ¬ text.units.SplitsPair d.stop.position := by
  have hcollect := collect_of_error h
  have herror : ofError text e = ofRange text e.span.start e.span.stop e.message := by
    cases e with
    | token d => exact absurd rfl (he d)
    | _ => rfl
  obtain ⟨before, part, after, rfl, hpart, hscalar, hspan⟩ := Source.exists_part_of_parse h he
  rw [herror, hspan] at hcollect
  have hbefore : ∀ c ∈ before, c.IsScalar := fun c hc => hscalar c (List.mem_append_left _ hc)
  refine ⟨_, part, hcollect, ?_, selects_ofRange hpart before after e.message, ?_, ?_⟩
  · rw [hspan]
    exact Text.slice?_append before part after
  · have hstart := Place.not_splitsPair_ofPosition_place hbefore (part ++ after)
    rwa [← List.append_assoc] at hstart
  · exact Place.not_splitsPair_ofPosition_place hscalar after

/-- The range starts behind a wide character in a string, and ends in the next line behind another
one in a comment. -/
theorem collect_selects_mismatched_group :
    let text : Text := "\"😀\" (a;🙂\n ]"
    let d : Diagnostic := ⟨⟨0, 5⟩, ⟨1, 2⟩, "mismatched group: expected ')', found ']'"⟩
    collect {} text = [d] ∧ d.Selects text "(a;🙂\n ]" := by
  intro text d
  have hparse : (Source.ofText text).parse {} none =
      .error (.mismatched .round .square ⟨⟨1, 4⟩, ⟨2, 2⟩⟩) :=
    Source.parse_eq_error_iff.mpr (by decide +kernel)
  have hcollect : collect {} text = [d] := by decide +kernel
  have hslice : text.slice? ⟨⟨1, 4⟩, ⟨2, 2⟩⟩ = some "(a;🙂\n ]" := by decide +kernel
  obtain ⟨other, part, hother, hpart, hselects, -⟩ := collect_selects_span hparse (by simp)
  obtain rfl : d = other := by simpa using hcollect.symm.trans hother
  obtain rfl := Option.some.inj (hslice.symm.trans hpart)
  exact ⟨hcollect, hselects⟩

section Tokens

variable {f : Features} {text row : Text} {p : Position} {e : TokenError}

theorem codePointAt_of_line? (h : text.line? p.line = some row) :
    codePointAt text p = (row[p.column.toNat]?).getD ' ' := by
  rw [codePointAt, h, Option.bind_some]

/-- Behind the end of its line, a place is that of the end. -/
theorem ofPosition_advance_of_none (hline : text.line? p.line = some row) (hcolumn : 0 ≤ p.column)
    (hnone : row[p.column.toNat]? = none) {c : CodePoint} (hc : c ≠ '\n') :
    Place.ofPosition text (p.advance c) = Place.ofPosition text p := by
  have hlength := List.getElem?_eq_none_iff.mp hnone
  rw [Position.advance, if_neg hc, Place.ofPosition, Place.ofPosition]
  dsimp only
  rw [hline]
  dsimp only
  rw [List.take_of_length_le hlength, List.take_of_length_le (by omega)]

/-- An error that no character can be shown for is shown on nothing. -/
theorem ofError_stop_eq_start (hline : text.line? e.position.line = some row)
    (hcolumn : 0 ≤ e.position.column) (hnone : row[e.position.column.toNat]? = none) :
    (ofError text (.token e)).stop = (ofError text (.token e)).start := by
  show Place.ofPosition text (e.position.advance (codePointAt text e.position)) =
    Place.ofPosition text e.position
  rw [codePointAt_of_line? hline, hnone]
  exact ofPosition_advance_of_none hline hcolumn hnone (by decide)

/-- Else it is shown on the character that it stands at. -/
theorem ofError_selects_next {before after : Text} {c : CodePoint} (hc : c ≠ '\n')
    (he : e.position = before.place) :
    (ofError (before ++ [c] ++ after) (.token e)).Selects (before ++ [c] ++ after) [c] := by
  have hnext : codePointAt (before ++ [c] ++ after) e.position = c := by
    rw [he, List.append_assoc, codePointAt_of_line? (Text.line?_place before ([c] ++ after)),
      List.singleton_append, Text.getElem?_lineAround before after hc, Option.getD_some]
  have hstop : e.position.advance c = (before ++ [c]).place := by
    rw [he, Text.place_append]
    rfl
  show (ofRange _ e.position (e.position.advance (codePointAt _ e.position)) e.message).Selects _ _
  rw [hnext, hstop, he]
  exact selects_ofRange (List.cons_ne_nil c []) before after e.message

/-- Where tokens cannot be read, the one diagnostic selects the character that the error stands at.
Only behind the last character of a line or of the text there is none, and nothing is selected. -/
theorem collect_selects_code_point (h : (Source.ofText text).parse f none = .error (.token e)) :
    ∃ d, collect f text = [d] ∧ d.start.LiesIn text ∧ d.stop.LiesIn text ∧
      (¬ e.IsAtLineEnd → ∃ c, d.Selects text [c] ∧ text.slice?
        (.onLine e.position.line e.position.column (e.position.column + 1)) = some [c]) ∧
      (e.IsAtLineEnd → d.stop = d.start) := by
  have hcollect := collect_of_error h
  obtain ⟨before, after, rfl, hplace, hseen⟩ := Source.exists_isSeen_of_parse h
  have hline : (before ++ after).line? e.position.line = some (Text.lineAround before after) := by
    rw [hplace]
    exact Text.line?_place before after
  have hend := hseen.isAtLineEnd_iff hline (Text.isOneLine_lineAround before after)
  have hstart : (ofError (before ++ after) (.token e)).start.LiesIn (before ++ after) := by
    show (Place.ofPosition _ e.position).LiesIn _
    rw [hplace]
    exact Place.liesIn_ofPosition_place before after
  refine ⟨_, hcollect, hstart, ?_⟩
  cases hnext : (Text.lineAround before after)[e.position.column.toNat]? with
  | none =>
    have hcolumn : 0 ≤ e.position.column := by
      rw [hplace]
      exact Int.natCast_nonneg _
    have hstop := ofError_stop_eq_start hline hcolumn hnext
    rw [hstop]
    exact ⟨hstart, fun hnot => absurd (hend.mpr hnext) hnot, fun _ => rfl⟩
  | some c =>
    have hnot : ¬ e.IsAtLineEnd := by simp [hend, hnext]
    rw [hplace] at hnext
    obtain ⟨hc, more, rfl⟩ := Text.exists_of_getElem?_lineAround hnext
    have hselects := @ofError_selects_next e before more c hc hplace
    have hslice := Text.slice?_append before [c] more
    rw [List.append_assoc] at hselects hslice
    have hstop : (before ++ [c]).place = ⟨before.place.line, before.place.column + 1⟩ := by
      rw [Text.place_append]
      exact if_neg hc
    rw [hstop] at hslice
    refine ⟨hselects.stop_liesIn, fun _ => ⟨c, hselects, ?_⟩, fun hat => absurd hat hnot⟩
    rw [hplace]
    exact hslice

/-- A string meets a surrogate, which is one code unit behind the two of a wide character. -/
theorem collect_selects_surrogate :
    let surrogate : CodePoint := ⟨0xD83D, by decide⟩
    let text : Text := Text.ofString "\"😀" ++ [surrogate]
    let d : Diagnostic := ⟨⟨0, 3⟩, ⟨0, 4⟩, "invalid UTF-8 sequence at byte offset 5"⟩
    collect {} text = [d] ∧ d.Selects text [surrogate] := by
  intro surrogate text d
  have hparse : (Source.ofText text).parse {} none =
      .error (.token (.badData .invalidSequence 5 ⟨1, 2⟩)) :=
    Source.parse_eq_error_iff.mpr (by decide +kernel)
  have hcollect : collect {} text = [d] := by decide +kernel
  have hslice : text.slice? (.onLine 1 2 (2 + 1)) = some [surrogate] := by decide +kernel
  obtain ⟨other, hother, -, -, hselects, -⟩ := collect_selects_code_point hparse
  obtain ⟨c, hselects, hc⟩ := hselects id
  obtain rfl : d = other := by simpa using hcollect.symm.trans hother
  obtain rfl : surrogate = c := by simpa using hslice.symm.trans hc
  exact ⟨hcollect, hselects⟩

/-- At the end of the text, a bytes literal that is left open is shown on nothing. -/
theorem collect_open_bytes_selects_nothing : ¬ ∀ (f : Features) (text : Text) (e : TokenError),
    (Source.ofText text).parse f none = .error (.token e) →
      ∃ d, collect f text = [d] ∧ d.start.position < d.stop.position := by
  intro h
  have hparse : (Source.ofText "#ab").parse {} none = .error (.token (.unterminatedBytes ⟨1, 3⟩)) :=
    Source.parse_eq_error_iff.mpr (by decide +kernel)
  have hcollect : collect {} "#ab" =
      [⟨⟨0, 3⟩, ⟨0, 3⟩, "unterminated bytes literal: unexpected end of input"⟩] := by
    decide +kernel
  obtain ⟨d, hd, hlt⟩ := h {} "#ab" _ hparse
  rw [hcollect] at hd
  obtain rfl := List.singleton_inj.mp hd
  exact lt_irrefl _ hlt

end Tokens

end Diagnostic
end SExpression
