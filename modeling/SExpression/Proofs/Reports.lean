import SExpression.Proofs.Balance
import SExpression.Proofs.Layout
import SExpression.Snippet

/-! What is told of an error: the message takes one line, and the place is one of the text that is
shown with it. -/
namespace SExpression
open CodePoint (ofChar)

namespace Text

/-- The text has no newline. -/
def IsOneLine (text : Text) : Prop :=
  ofChar '\n' ∉ text

instance (text : Text) : Decidable text.IsOneLine :=
  inferInstanceAs (Decidable (_ ∉ _))

theorem isOneLine_append_iff {a b : Text} :
    (a ++ b).IsOneLine ↔ a.IsOneLine ∧ b.IsOneLine := by
  simp [IsOneLine]

theorem IsOneLine.append {a b : Text} (ha : a.IsOneLine) (hb : b.IsOneLine) :
    (a ++ b).IsOneLine :=
  isOneLine_append_iff.mpr ⟨ha, hb⟩

theorem isOneLine_ofNat (n : ℕ) : (ofNat n).IsOneLine := by
  intro hmem
  obtain ⟨c, hc, hnewline⟩ := List.mem_map.mp hmem
  have hdigit := Nat.isDigit_of_mem_toDigits (by decide) le_rfl hc
  have heq : c = '\n' := Char.toNat_inj.mp (congrArg CodePoint.value hnewline)
  rw [heq] at hdigit
  cases hdigit

theorem isOneLine_ofInt (n : ℤ) : (ofInt n).IsOneLine := by
  cases n with
  | ofNat n => exact isOneLine_ofNat n
  | negSucc n =>
    have hsign : IsOneLine [ofChar '-'] := by decide
    exact hsign.append (isOneLine_ofNat (n + 1))

theorem isOneLine_hexOfNat (width n : ℕ) : (hexOfNat width n).IsOneLine := by
  induction width generalizing n with
  | zero => exact List.not_mem_nil
  | succ width ih =>
    have hdigit : ∀ d < 16, IsOneLine [ofChar (Nat.digitChar d)] := by decide
    exact (ih (n / 16)).append (hdigit (n % 16) (Nat.mod_lt n (by decide)))

theorem isOneLine_escape {quote : CodePoint} (hquote : quote ≠ '\n') (c : CodePoint) :
    (escape quote c).IsOneLine := by
  have hplain {d : CodePoint} (hd : d ≠ '\n') : IsOneLine [d] := by
    simpa [IsOneLine] using hd.symm
  have hcode (letter : Char) (hletter : IsOneLine [ofChar '\\', ofChar letter]) (width : ℕ) :
      IsOneLine ([ofChar '\\', ofChar letter] ++ hexOfNat width c.value) :=
    hletter.append (isOneLine_hexOfNat width c.value)
  unfold escape
  split_ifs with hself hnewline
  · rcases hself with rfl | rfl
    · have hbackslash : IsOneLine [ofChar '\\'] := by decide
      exact hbackslash.append (hplain hquote)
    · decide
  · decide
  · decide
  · decide
  · exact hplain hnewline
  · exact hcode 'x' (by decide) 2
  · exact hcode 'u' (by decide) 4
  · exact hcode 'U' (by decide) 8

theorem isOneLine_quoted (text : Text) : text.quoted.IsOneLine := by
  have hquote : text.quoteFor ≠ '\n' := by
    unfold quoteFor
    split <;> decide
  intro hmem
  simp only [quoted, List.cons_append, List.mem_cons, List.mem_append, List.mem_flatMap,
    List.not_mem_nil, or_false] at hmem
  rcases hmem with h | ⟨c, -, h⟩ | h
  · exact hquote h.symm
  · exact isOneLine_escape hquote c h
  · exact hquote h.symm

end Text

theorem Utf8.DecodeError.isOneLine_message (e : Utf8.DecodeError) : e.message.IsOneLine := by
  cases e with
  | incomplete lead =>
    have hstart : Text.IsOneLine "incomplete UTF-8 sequence starting with byte 0x" := by decide
    exact hstart.append (Text.isOneLine_hexOfNat 2 lead.toNat)
  | _ => decide

theorem TokenError.isOneLine_message (e : TokenError) : e.message.IsOneLine := by
  cases e with
  | badData cause offset position =>
    have hbetween : Text.IsOneLine " at byte offset " := by decide
    exact (cause.isOneLine_message.append hbetween).append (Text.isOneLine_ofNat offset)
  | unterminatedString =>
    show Text.IsOneLine "unterminated string literal"
    decide
  | unterminatedBytes =>
    show Text.IsOneLine "unterminated bytes literal: unexpected end of input"
    decide
  | brokenBytes position found =>
    have hstart : Text.IsOneLine "unterminated bytes literal: expected '#', found " := by decide
    exact hstart.append (Text.isOneLine_quoted [found])
  | unprocessable position found =>
    have hstart : Text.IsOneLine "unprocessable character " := by decide
    exact hstart.append (Text.isOneLine_quoted [found])

theorem ParseError.isOneLine_message (e : ParseError) : e.message.IsOneLine := by
  have hclosing (shape : Shape) : Text.IsOneLine [shape.closing] := by cases shape <;> decide
  have hopening (shape : Shape) : Text.IsOneLine [shape.opening] := by cases shape <;> decide
  have hquote : Text.IsOneLine "'" := by decide
  cases e with
  | token e => exact e.isOneLine_message
  | unopened shape span =>
    have hstart : Text.IsOneLine "unbalanced: unexpected close '" := by decide
    exact (hstart.append (hclosing shape)).append hquote
  | mismatched expected found span =>
    have hstart : Text.IsOneLine "mismatched group: expected '" := by decide
    have hbetween : Text.IsOneLine "', found '" := by decide
    exact (((hstart.append (hclosing expected)).append hbetween).append (hclosing found)).append
      hquote
  | unfinished shape span =>
    have hstart : Text.IsOneLine "unfinished group: '" := by decide
    have hend : Text.IsOneLine "' is never closed" := by decide
    exact (hstart.append (hopening shape)).append hend
  | tooDeep limit span =>
    have hstart : Text.IsOneLine "groups nested deeper than " := by decide
    have hend : Text.IsOneLine " levels" := by decide
    exact (hstart.append (Text.isOneLine_ofInt limit)).append hend

/-- The first two lines of a report are its message and, behind an arrow, its place. -/
theorem Report.exists_format_eq (r : Report) (shown filename : Text) :
    ∃ margin more : Text, (∀ c ∈ margin, c = ofChar ' ') ∧ r.format shown filename =
      "error: " ++ r.message ++ "\n" ++ (margin ++ "--> " ++ filename ++ ":" ++
        Text.ofInt r.start.line ++ ":" ++ Text.ofInt (r.start.column + 1) ++ "\n" ++ more) := by
  let number := Text.ofInt r.start.line
  let margin := Text.repeated (number.length + 1) ' '
  refine ⟨margin, margin ++ "|\n" ++ number ++ " | " ++ r.line shown ++ "\n" ++ margin ++ "| " ++
    Text.repeated r.start.column.toNat ' ' ++ Text.repeated (r.caretCount shown) '^', ?_, ?_⟩
  · intro c hc
    exact List.eq_of_mem_replicate hc
  · unfold format
    simp only [List.append_assoc]
    rfl

namespace Text

/-- The position is one that some start of the text ends at. -/
def HasPlace (text : Text) (p : Position) : Prop :=
  ∃ before after, text = before ++ after ∧ p = before.place

variable {text : Text} {p : Position} {s : Span}

namespace HasPlace

theorem append (h : text.HasPlace p) (more : Text) : (text ++ more).HasPlace p := by
  obtain ⟨before, after, rfl, rfl⟩ := h
  exact ⟨before, after ++ more, List.append_assoc _ _ _, rfl⟩

theorem le_place (h : text.HasPlace p) : p ≤ text.place := by
  obtain ⟨before, after, rfl, rfl⟩ := h
  rw [place_append]
  exact Position.le_advanceOver _ after

end HasPlace

theorem hasPlace_place (text : Text) : text.HasPlace text.place :=
  ⟨text, [], (List.append_nil text).symm, rfl⟩

/-- The span selects some of the text. -/
structure HasSpan (text : Text) (s : Span) : Prop where
  start : text.HasPlace s.start
  stop : text.HasPlace s.stop
  start_lt_stop : s.start < s.stop

theorem HasSpan.append (h : text.HasSpan s) (more : Text) : (text ++ more).HasSpan s :=
  ⟨h.start.append more, h.stop.append more, h.start_lt_stop⟩

/-- What starts where the span does may go on to the end of any longer text. -/
theorem HasSpan.to_end (h : text.HasSpan s) (more : Text) :
    (text ++ more).HasSpan ⟨s.start, (text ++ more).place⟩ where
  start := h.start.append more
  stop := hasPlace_place _
  start_lt_stop := h.start_lt_stop.trans_le (h.stop.append more).le_place

end Text

theorem Cursor.Fails.exists_position_eq {cursor later : Cursor} {e : TokenError}
    (h : Fails cursor e later) : ∃ before after, cursor.rest = before ++ after ∧
      e.position = cursor.position.advanceOver before := by
  cases h with
  | badData h hrest hfault => exact ⟨_, _, h.1, h.position_eq⟩
  | @unterminatedString before body later h hrest hfault =>
    refine ⟨before, ofChar '"' :: body ++ later.rest, ?_, rfl⟩
    rw [h.1, List.append_assoc]
  | unterminatedBytes h hrest hfault => exact ⟨_, _, h.1, h.position_eq⟩
  | brokenBytes h hrest => exact ⟨_, _, h.1, h.position_eq⟩
  | @unprocessable before c later h =>
    refine ⟨before, [c] ++ later.rest, ?_, rfl⟩
    rw [h.1, List.append_assoc]

namespace ParseError

/-- An error of reading stands at a place of the text, any other one selects some of it. -/
def LiesIn (text : Text) : ParseError → Prop
  | .token e => text.HasPlace e.position
  | .unopened _ span
  | .mismatched _ _ span
  | .unfinished _ span
  | .tooDeep _ span => text.HasSpan span

theorem LiesIn.append {text : Text} {e : ParseError} (h : e.LiesIn text) (more : Text) :
    e.LiesIn (text ++ more) := by
  cases e with
  | token => exact Text.HasPlace.append h more
  | _ => exact Text.HasSpan.append h more

theorem LiesIn.hasPlace {text : Text} {e : ParseError} (h : e.LiesIn text) :
    text.HasPlace e.span.start ∧ text.HasPlace e.span.stop := by
  cases e with
  | token => exact ⟨h, h⟩
  | _ => exact ⟨h.start, h.stop⟩

end ParseError

namespace Assembly

variable {limit : Option ℤ} {a b : Assembly} {token : Token} {e : ParseError} {text : Text}

/-- What holds of the delimiters that opened groups is kept by a step, if it holds of the token. -/
theorem Moves.forall_openers {p : Span → Prop} (h : Moves limit a token b) (htoken : p token.span)
    (ha : ∀ opener ∈ a.openers, p opener.2) : ∀ opener ∈ b.openers, p opener.2 := by
  cases h with
  | comment => rwa [openers_place]
  | atom => rwa [openers_place]
  | opening =>
    rw [openers_cons]
    exact List.forall_mem_cons.mpr ⟨htoken, ha⟩
  | closing hstack =>
    rw [openers_place]
    rw [openers, hstack] at ha
    exact (List.forall_mem_cons.mp ha).2

/-- A step breaks off at its token, or else from an opening delimiter before it up to its end. -/
theorem Breaks.liesIn {more : Text} (h : Breaks limit a token e)
    (ha : ∀ opener ∈ a.openers, text.HasSpan opener.2) (htoken : (text ++ more).HasSpan token.span)
    (hstop : token.span.stop = (text ++ more).place) : e.LiesIn (text ++ more) := by
  cases h with
  | unopened => exact htoken
  | tooDeep => exact htoken
  | @mismatched top outer shape span hstack =>
    have htop : text.HasSpan top.span := ha (top.shape, top.span) (by simp [openers, hstack])
    have hwhole := htop.to_end more
    rwa [← hstop] at hwhole

end Assembly

namespace Source

variable {f : Features} {limit : Option ℤ} {source : Source} {done : Text} {cursor later : Cursor}

theorem hasPlace_of_fails {e : TokenError} (hdone : source.cursor.Passes done cursor)
    (he : cursor.Fails e later) : source.cursor.rest.HasPlace e.position := by
  obtain ⟨before, after, hrest, hposition⟩ := (he.of_passes hdone).exists_position_eq
  refine ⟨before, after, hrest, ?_⟩
  rw [hposition, Text.place_eq]
  rfl

/-- A token selects the last of what is read with it. -/
theorem hasSpan_of_next {token : Token} (hdone : source.cursor.Passes done cursor)
    (hnext : cursor.next f = (.ok (some token), later)) :
    ∃ taken, source.cursor.Passes (done ++ taken) later ∧ (done ++ taken).HasSpan token.span ∧
      token.span.stop = (done ++ taken).place := by
  obtain ⟨hne, gap, -, hpass, hspan⟩ := span_of_next hdone hnext
  rw [List.append_assoc] at hpass hspan
  refine ⟨_, hpass, ⟨?_, ?_, ?_⟩, by rw [hspan]⟩
  · rw [hspan]
    exact ⟨done ++ gap, token.lexeme.spelling, (List.append_assoc _ _ _).symm, rfl⟩
  · rw [hspan]
    exact Text.hasPlace_place _
  · rw [hspan, ← List.append_assoc, Text.place_append (done ++ gap)]
    exact Position.lt_advanceOver _ hne

/-- Where putting an element together fails, the error lies in what the source holds, if the groups
that are open were opened in what has been read of it. -/
theorem liesIn_of_assemble {stack : List OpenGroup} {e : ParseError}
    (hdone : source.cursor.Passes done cursor)
    (hopen : ∀ opener ∈ (⟨[], stack⟩ : Assembly).openers, done.HasSpan opener.2)
    (h : cursor.assemble f limit stack = (.error e, later)) : e.LiesIn source.cursor.rest := by
  fun_induction Cursor.assemble f limit stack cursor generalizing done with
  | case1 _ _ d middle hnext =>
    cases h
    exact hasPlace_of_fails hdone (Cursor.fails_of_next hnext)
  | case2 => cases h
  | case3 cursor middle hnext top outer =>
    cases h
    have htop : done.HasSpan top.span := hopen (top.shape, top.span) (by simp)
    rw [hdone.1]
    exact htop.append _
  | case4 stack cursor token middle hnext d haccept =>
    cases h
    obtain ⟨taken, hmiddle, htoken, hstop⟩ := hasSpan_of_next hdone hnext
    have hbreaks : Assembly.Breaks limit ⟨[], stack⟩ token e := by
      rw [← Assembly.step_eq_error_iff, Assembly.step, haccept]
      rfl
    rw [hmiddle.1]
    exact (hbreaks.liesIn hopen htoken hstop).append _
  | case5 => cases h
  | case6 stack cursor token middle hnext inner haccept ih =>
    obtain ⟨taken, hmiddle, htoken, -⟩ := hasSpan_of_next hdone hnext
    have hmoves : Assembly.Moves limit ⟨[], stack⟩ token ⟨[], inner⟩ := by
      rw [← Assembly.step_eq_ok_iff, Assembly.step, haccept]
      rfl
    have hinner := hmoves.forall_openers htoken fun opener hmem => (hopen opener hmem).append taken
    exact ih hmiddle hinner h

theorem liesIn_of_elements {e : ParseError} (hdone : source.cursor.Passes done cursor)
    (h : (cursor.elements f limit).error = some e) : e.LiesIn source.cursor.rest := by
  fun_induction Cursor.elements f limit cursor generalizing done with
  | case1 cursor d middle helement =>
    cases h
    exact liesIn_of_assemble hdone (by simp [Assembly.openers]) helement
  | case2 => cases h
  | case3 cursor element middle helement =>
    rename_i ih
    obtain ⟨taken, hmiddle⟩ := Cursor.passes_of_assemble helement
    exact ih (hdone.trans hmiddle) h

/-- The span of an error starts in the text that is shown of the source. -/
theorem Shows.hasPlace_of_parse (h : source.Shows) {e : ParseError}
    (he : source.parse f limit = .error e) : source.shown.HasPlace e.span.start := by
  obtain ⟨more, hshown, -⟩ := h
  have hlies := liesIn_of_elements (.refl source.cursor) (parse_eq_error_iff.mp he)
  rw [hshown]
  exact (hlies.append more).hasPlace.1

end Source
end SExpression
