import SExpression.Proofs.Faults
import SExpression.Proofs.Lines
import SExpression.Proofs.Reports

/-! Errors are shown on their line: a report is written in five lines, of which the fourth shows
the line that the error starts on, and the carets of the fifth stand below what it covers. -/
namespace SExpression
open CodePoint (ofChar)

namespace Text

variable {text : Text}

theorem isOneLine_repeated (n : ℕ) {c : CodePoint} (hc : c ≠ '\n') : (repeated n c).IsOneLine :=
  fun hmem => hc (List.eq_of_mem_replicate hmem).symm

theorem isOneLine_lineAround (before after : Text) : (lineAround before after).IsOneLine := by
  have hbefore : IsOneLine (before.rtakeWhile (· ≠ ofChar '\n')) := fun hmem =>
    by simpa using List.mem_rtakeWhile_imp hmem
  have hafter : IsOneLine (after.takeWhile (· ≠ ofChar '\n')) := fun hmem =>
    by simpa using List.mem_takeWhile_imp hmem
  exact hbefore.append hafter

theorem IsOneLine.lines_eq (h : text.IsOneLine) : text.lines = [text] := by
  induction text with
  | nil => rfl
  | cons c cs ih =>
    obtain ⟨hc, hcs⟩ := not_or.mp (mt List.mem_cons.mpr h)
    rw [lines, split, if_neg (Ne.symm hc), show split '\n' cs = [cs] from ih hcs]

/-- Rows that are put together with newlines between are the lines of the whole. -/
theorem lines_intercalate {rows : List Text} (hne : rows ≠ []) (h : ∀ row ∈ rows, row.IsOneLine) :
    lines ([ofChar '\n'].intercalate rows) = rows := by
  induction rows with
  | nil => exact absurd rfl hne
  | cons row rows ih =>
    have hrow := h row (by simp)
    cases rows with
    | nil =>
      rw [List.intercalate_singleton]
      exact hrow.lines_eq
    | cons next rows =>
      have hrest := ih (by simp) fun row hmem => h row (List.mem_cons_of_mem _ hmem)
      rw [List.intercalate_cons_cons, List.append_assoc, List.singleton_append,
        lines_append_newline, hrow.lines_eq, hrest]
      rfl

/-- The line of the place is one of the text, and its column is one of that line. -/
theorem HasPlace.exists_line {p : Position} (h : text.HasPlace p) :
    ∃ row, text.line? p.line = some row ∧ row.IsOneLine ∧ 0 ≤ p.column ∧
      p.column ≤ row.length := by
  obtain ⟨before, after, rfl, rfl⟩ := h
  exact ⟨_, line?_place before after, isOneLine_lineAround before after,
    column_place_nonneg before, column_place_le_length before after⟩

end Text

namespace Report

variable {r : Report} {shown filename : Text}

/-- The report takes five lines. The fourth shows the row that it starts on behind the number of
the line, and the carets of the fifth stand below it from its column on, or one behind its end. -/
structure Draws (r : Report) (shown filename row : Text) (carets : ℕ) : Prop where
  line?_eq : shown.line? r.start.line = some row
  column_nonneg : 0 ≤ r.start.column
  lines_eq : ∃ margin pad : Text, (r.format shown filename).lines =
    ["error: " ++ r.message,
      margin ++ "--> " ++ filename ++ ":" ++ Text.ofInt r.start.line ++ ":" ++
        Text.ofInt (r.start.column + 1),
      margin ++ "|",
      Text.ofInt r.start.line ++ " | " ++ row,
      pad ++ Text.repeated carets '^'] ∧
    ofChar '^' ∉ pad ∧
    pad.length = (Text.ofInt r.start.line ++ " | ").length + r.start.column
  on_row : r.start.column + carets ≤ row.length ∨ r.start.column = row.length ∧ carets = 1

theorem line_eq {row : Text} (h : shown.line? r.start.line = some row) : r.line shown = row := by
  rw [line, h, Option.getD_some]

/-- The lines of a report, each without the newline behind it. -/
def rows (r : Report) (shown filename : Text) : List Text :=
  let number := Text.ofInt r.start.line
  let margin := Text.repeated (number.length + 1) ' '
  ["error: " ++ r.message,
    margin ++ "--> " ++ filename ++ ":" ++ number ++ ":" ++ Text.ofInt (r.start.column + 1),
    margin ++ "|",
    number ++ " | " ++ r.line shown,
    margin ++ "| " ++ Text.repeated r.start.column.toNat ' ' ++
      Text.repeated (r.caretCount shown) '^']

theorem format_eq_intercalate (r : Report) (shown filename : Text) :
    r.format shown filename = [ofChar '\n'].intercalate (r.rows shown filename) := by
  have hnewline : Text.ofString "\n" = [ofChar '\n'] := rfl
  have hbar : Text.ofString "|\n" = Text.ofString "|" ++ [ofChar '\n'] := rfl
  unfold format rows
  simp only [List.intercalate_cons_cons, List.intercalate_singleton, List.append_assoc, hnewline,
    hbar]

theorem lines_format (hmessage : r.message.IsOneLine) (hfilename : filename.IsOneLine)
    (hrow : (r.line shown).IsOneLine) :
    (r.format shown filename).lines = r.rows shown filename := by
  rw [format_eq_intercalate]
  apply Text.lines_intercalate (List.cons_ne_nil _ _)
  have hnumber (n : ℤ) : (Text.ofInt n).IsOneLine := Text.isOneLine_ofInt n
  have hspaces (n : ℕ) : (Text.repeated n ' ').IsOneLine := Text.isOneLine_repeated n (by decide)
  have hcarets (n : ℕ) : (Text.repeated n '^').IsOneLine := Text.isOneLine_repeated n (by decide)
  have hliterals : ∀ s ∈ ["error: ", "--> ", ":", "|", " | ", "| "],
      (Text.ofString s).IsOneLine := by
    decide
  simp only [List.forall_mem_cons] at hliterals
  simp only [List.forall_mem_cons, Text.isOneLine_append_iff]
  tauto

theorem column_add_caretCount_of_line_eq (r : Report) (shown : Text) {stop : Position}
    (hstop : r.stop = some stop) (hline : stop.line = r.start.line) :
    r.start.column + r.caretCount shown = max stop.column (r.start.column + 1) := by
  simp only [caretCount, hstop, hline, if_true]
  omega

/-- Where no end is known on the same line, the rest of the line is underlined. -/
theorem column_add_caretCount_of_line_ne (r : Report) (shown : Text)
    (hstop : ∀ stop ∈ r.stop, stop.line ≠ r.start.line) :
    r.start.column + r.caretCount shown =
      max ((r.line shown).length : ℤ) (r.start.column + 1) := by
  unfold caretCount
  cases h : r.stop with
  | none =>
    simp only
    omega
  | some stop =>
    simp only [hstop stop h, if_false]
    omega

theorem draws (hmessage : r.message.IsOneLine) (hfilename : filename.IsOneLine)
    (hstart : shown.HasPlace r.start) (hstop : ∀ stop ∈ r.stop, shown.HasPlace stop) :
    r.Draws shown filename (r.line shown) (r.caretCount shown) := by
  obtain ⟨row, hline, hrow, hcolumn, hle⟩ := hstart.exists_line
  obtain rfl := line_eq hline
  refine ⟨hline, hcolumn, ⟨_, _, lines_format hmessage hfilename hrow, ?_, ?_⟩, ?_⟩
  · have hbar : ofChar '^' ∉ Text.ofString "| " := by decide
    have hspace : ofChar '^' ≠ ofChar ' ' := by decide
    simp [Text.repeated, hbar, hspace]
  · have hbar : (Text.ofString "| ").length = 2 := rfl
    have hbetween : (Text.ofString " | ").length = 3 := rfl
    simp only [Text.repeated, List.length_append, List.length_replicate, hbar, hbetween]
    omega
  · by_cases hsame : ∃ stop ∈ r.stop, stop.line = r.start.line
    · obtain ⟨stop, hmem, hsame⟩ := hsame
      have hcarets := r.column_add_caretCount_of_line_eq shown hmem hsame
      obtain ⟨row, hstopline, -, -, hstople⟩ := (hstop stop hmem).exists_line
      rw [hsame, hline] at hstopline
      obtain rfl := Option.some.inj hstopline
      omega
    · push Not at hsame
      have hcarets := r.column_add_caretCount_of_line_ne shown hsame
      omega

end Report

namespace Source

variable {f : Features} {limit : Option ℤ} {source : Source}

/-- The error comes of reading all tokens, or the next one after any requests. -/
def RaisesTokenError (source : Source) (f : Features) (limit : Option ℤ) (e : TokenError) : Prop :=
  source.tokenize f = .error e ∨
    ∃ requests, ((source.cursor.serveAll f limit requests).next f).1 = .error e

/-- The error comes of reading all elements, or the next one after any requests. -/
def RaisesParseError (source : Source) (f : Features) (limit : Option ℤ) (e : ParseError) : Prop :=
  source.parse f limit = .error e ∨
    ∃ requests, ((source.cursor.serveAll f limit requests).element f limit).1 = .error e

theorem RaisesTokenError.hasPlace {e : TokenError} (h : source.RaisesTokenError f limit e) :
    source.cursor.rest.HasPlace e.position := by
  rcases h with h | ⟨requests, h⟩
  · exact hasPlace_of_fails (.refl source.cursor)
      (Cursor.fails_of_tokens (tokenize_eq_error_iff.mp h))
  · obtain ⟨done, hdone⟩ := Cursor.passes_serveAll f limit source.cursor requests
    exact hasPlace_of_fails hdone (Cursor.fails_of_next (Prod.ext h rfl))

theorem RaisesParseError.liesIn {e : ParseError} (h : source.RaisesParseError f limit e) :
    e.LiesIn source.cursor.rest := by
  rcases h with h | ⟨requests, h⟩
  · exact liesIn_of_elements (.refl source.cursor) (parse_eq_error_iff.mp h)
  · obtain ⟨done, hdone⟩ := Cursor.passes_serveAll f limit source.cursor requests
    exact liesIn_of_assemble hdone (by simp [Assembly.openers]) (Prod.ext h rfl)

end Source

/-- So many carets go from the start of the span up to its end, if that is on the same line, and
else up to the end of the row that it starts on, or one behind it. -/
def Span.IsUnderlined (s : Span) (row : Text) (carets : ℕ) : Prop :=
  if s.stop.line = s.start.line then s.start.column + carets = s.stop.column
  else s.start.column + carets = max (row.length : ℤ) (s.start.column + 1)

/-- How many carets an error has on its row: an error of reading has one, any other one has them
below what it selects. -/
def ParseError.IsUnderlined (row : Text) (carets : ℕ) : ParseError → Prop
  | .token _ => carets = 1
  | .unopened _ span
  | .mismatched _ _ span
  | .unfinished _ span
  | .tooDeep _ span => span.IsUnderlined row carets

theorem Text.HasSpan.isUnderlined {shown : Text} {s : Span} (h : shown.HasSpan s) (message : Text) :
    let r : Report := ⟨message, s.start, some s.stop⟩
    s.IsUnderlined (r.line shown) (r.caretCount shown) := by
  intro r
  unfold Span.IsUnderlined
  split_ifs with hline
  · have hcarets := r.column_add_caretCount_of_line_eq shown rfl hline
    have hlt : s.start.column < s.stop.column := by
      rcases Position.lt_iff.mp h.start_lt_stop with hlt | ⟨-, hlt⟩
      · exact absurd hline hlt.ne'
      · exact hlt
    rwa [max_eq_left hlt] at hcarets
  · have hstop : ∀ stop ∈ r.stop, stop.line ≠ r.start.line := by simpa [r] using hline
    exact r.column_add_caretCount_of_line_ne shown hstop

theorem ParseError.LiesIn.isUnderlined {shown : Text} {e : ParseError} (h : e.LiesIn shown) :
    e.IsUnderlined (e.report.line shown) (e.report.caretCount shown) := by
  cases e with
  | token e =>
    have hcarets := (token e).report.column_add_caretCount_of_line_eq shown rfl rfl
    have hstop : (token e).span.stop = (token e).span.start := rfl
    rw [max_eq_right (by simp [report, hstop])] at hcarets
    exact Nat.cast_inj.mp (add_left_cancel hcarets)
  | _ => exact Text.HasSpan.isUnderlined h _

namespace Source

variable {source : Source}

/-- Whatever reading a source fails with, the report takes five lines and shows the line of the
error with carets below: up to the end of the line where tokens are read, a single one where such an
error ends an element, and for any other error as many as its span has on that line. -/
theorem errors_are_underlined
    (hsource : (∃ text, source = ofText text) ∨ ∃ bytes, source = ofBytes bytes)
    {filename : Text} (hfilename : filename.IsOneLine) (f : Features) (limit : Option ℤ) :
    (∀ e, source.RaisesTokenError f limit e → ∃ row carets,
      e.report.Draws source.shown filename row carets ∧
      e.position.column + carets = max (row.length : ℤ) (e.position.column + 1)) ∧
    ∀ e, source.RaisesParseError f limit e → ∃ row carets,
      e.report.Draws source.shown filename row carets ∧ e.IsUnderlined row carets := by
  obtain ⟨more, hshown, -⟩ : source.Shows := by
    obtain ⟨text, rfl⟩ | ⟨bytes, rfl⟩ := hsource
    · exact shows_ofText text
    · exact shows_ofBytes bytes
  constructor
  · intro e he
    have hplace : source.shown.HasPlace e.position := by
      rw [hshown]
      exact he.hasPlace.append more
    have hstop : e.report.stop = none := rfl
    exact ⟨_, _, Report.draws e.isOneLine_message hfilename hplace (by simp [hstop]),
      e.report.column_add_caretCount_of_line_ne source.shown (by simp [hstop])⟩
  · intro e he
    have hlies : e.LiesIn source.shown := by
      rw [hshown]
      exact he.liesIn.append more
    obtain ⟨hstart, hstop⟩ := hlies.hasPlace
    have hstop : ∀ stop ∈ e.report.stop, source.shown.HasPlace stop := by
      rintro stop ⟨⟩
      exact hstop
    exact ⟨_, _, Report.draws e.isOneLine_message hfilename hstart hstop, hlies.isUnderlined⟩

/-- The group goes on in the second line, so that the rest of the first is underlined. -/
theorem mismatched_group_underlined_to_end_of_line :
    (ParseError.mismatched .round .square ⟨⟨1, 0⟩, ⟨2, 3⟩⟩).report.Draws
      (ofText "(a\n b]").shown "x.sexp" "(a" 2 := by
  have hparse : (ofText "(a\n b]").parse {} none =
      .error (.mismatched .round .square ⟨⟨1, 0⟩, ⟨2, 3⟩⟩) :=
    parse_eq_error_iff.mpr (by decide +kernel)
  have hfilename : Text.IsOneLine "x.sexp" := by decide
  obtain ⟨row, carets, hdraws, hcarets⟩ :=
    (errors_are_underlined (.inl ⟨_, rfl⟩) hfilename {} none).2 _ (.inl hparse)
  have hrow : (ofText "(a\n b]").shown.line? 1 = some "(a" := by decide +kernel
  obtain rfl : row = "(a" := Option.some.inj (hdraws.line?_eq.symm.trans hrow)
  have hlength : (Text.ofString "(a").length = 2 := rfl
  have hrest : (carets : ℤ) = 2 := by
    simpa [ParseError.IsUnderlined, Span.IsUnderlined, hlength] using hcarets
  obtain rfl : carets = 2 := Nat.cast_inj.mp hrest
  exact hdraws

end Source
end SExpression
