import SExpression.Proofs.Advance
import SExpression.Proofs.Lines

/-! Errors of reading stand at their causes: on the line that is shown for its position, an error
has the character that it tells of at its column, and where it tells of the end, it stands there. -/
namespace SExpression
open CodePoint (ofChar)

namespace Text

theorem getElem?_lineAround {c : CodePoint} (before after : Text) (hc : c ≠ '\n') :
    (lineAround before (c :: after))[before.place.column.toNat]? = some c := by
  rw [lineAround, toNat_column_place, List.takeWhile_cons_of_pos (by simpa using hc),
    List.getElem?_append_right le_rfl, Nat.sub_self, List.getElem?_cons_zero]

/-- Before a newline, the column is that of the end of the line. -/
theorem column_eq_length_lineAround (before after : Text) :
    before.place.column = (lineAround before (ofChar '\n' :: after)).length := by
  simp [lineAround, place]

end Text

/-- Errors that are told where their lexeme starts. -/
def TokenError.IsAtStart : TokenError → Prop
  | .unterminatedString .. => True
  | .unprocessable .. => True
  | _ => False

/-- No quote ends a string that the text goes on with. -/
def IsOpen (body : Text) : Prop :=
  ∀ inner rest, StringBody inner → body ≠ inner ++ ofChar '"' :: rest

namespace Reading

variable {f : Features} {c : CodePoint} {cs : Text}

theorem eq_of_unknown {d : CodePoint} (h : (ofText f c cs).found = .unknown d) : d = c := by
  have hfails := fails_ofText (show (ofText f c cs).found.lexeme? = none by rw [h]; rfl)
  generalize hread : ofText f c cs = r at h hfails
  cases hfails <;> cases h
  rfl

theorem of_unclosedString (h : (ofText f c cs).found = .unclosedString) : c = '"' ∧ IsOpen cs := by
  have hfails := fails_ofText (show (ofText f c cs).found.lexeme? = none by rw [h]; rfl)
  obtain rfl : c = '"' := by
    generalize hread : ofText f c cs = r at h hfails
    cases hfails <;> cases h
    rfl
  refine ⟨rfl, ?_⟩
  rintro inner rest hinner rfl
  rw [ofText_quote, string, splitString_append hinner] at h
  cases h

end Reading

namespace Cursor

/-- The error is told of the cursor, where a string is opened that nothing closes, or a character
stands that starts no lexeme. -/
inductive Refuses (start : Cursor) : TokenError → Prop
  | string {body : Text} {reached : Position} (hrest : start.rest = ofChar '"' :: body)
      (hopen : IsOpen body) : Refuses start (.unterminatedString start.position reached)
  | unknown {c : CodePoint} {cs : Text} (hrest : start.rest = c :: cs) (hc : ¬ c.isBlank) :
      Refuses start (.unprocessable start.position c)

variable {f : Features} {cursor middle later : Cursor} {e : TokenError}

theorem found_of_judge {start stop : Cursor} {found : Found}
    (h : judge start stop found = .error e) (he : e.IsAtStart) :
    (found = .unclosedString ∧ e = .unterminatedString start.position stop.position) ∨
      ∃ c, found = .unknown c ∧ e = .unprocessable start.position c := by
  have hblocked : ∀ d, stop.blocked? = some d → d ≠ e := by
    rintro d hd rfl
    obtain ⟨-, cause, -, rfl⟩ := blocked?_eq_some_iff.mp hd
    exact he
  cases found with
  | closed => cases h
  | run =>
    cases hb : stop.blocked? with
    | none => simp [judge, hb] at h
    | some d => simp [judge, hb, hblocked d hb] at h
  | unclosedString =>
    cases hb : stop.blocked? with
    | none =>
      obtain rfl : _ = e := by simpa [judge, hb] using h
      exact .inl ⟨rfl, rfl⟩
    | some d => simp [judge, hb, hblocked d hb] at h
  | unclosedBytes =>
    cases hb : stop.blocked? with
    | none =>
      obtain rfl : _ = e := by simpa [judge, hb] using h
      cases he
    | some d => simp [judge, hb, hblocked d hb] at h
  | brokenBytes =>
    cases h
    cases he
  | unknown c =>
    cases h
    exact .inr ⟨c, rfl, rfl⟩

theorem refuses_of_read (h : cursor.read f = (.error e, later)) (he : e.IsAtStart) :
    ∃ blanks start, (∀ c ∈ blanks, c.isBlank) ∧ cursor.Passes blanks start ∧ Refuses start e := by
  obtain ⟨blanks, rest, hrest, hblanks, hhead, hskip⟩ := exists_blanks cursor
  have hstart : cursor.skipBlanks.rest = rest := by rw [hskip, rest_pass]
  refine ⟨blanks, cursor.skipBlanks, hblanks, ?_, ?_⟩
  · rw [hskip]
    exact passes_pass hrest
  cases rest with
  | nil =>
    rw [read_of_skipBlanks_nil hstart] at h
    cases hb : cursor.skipBlanks.blocked? with
    | none => simp [hb] at h
    | some d =>
      rw [hb] at h
      cases h
      obtain ⟨-, cause, -, rfl⟩ := blocked?_eq_some_iff.mp hb
      cases he
  | cons c cs =>
    generalize hread : Reading.ofText f c cs = r
    rw [read_of_skipBlanks_cons hstart hread] at h
    cases hjudge : judge cursor.skipBlanks (cursor.skipBlanks.pass r.taken r.rest) r.found with
    | ok lexeme => simp [hjudge, Except.map] at h
    | error d =>
      obtain rfl : d = e := by simpa [hjudge, Except.map] using (Prod.mk.inj h).1
      rcases found_of_judge hjudge he with ⟨hfound, rfl⟩ | ⟨b, hfound, rfl⟩
      · obtain ⟨rfl, hopen⟩ := Reading.of_unclosedString (hread ▸ hfound)
        exact .string hstart hopen
      · obtain rfl := Reading.eq_of_unknown (hread ▸ hfound)
        exact .unknown hstart (hhead b rfl)

theorem Refuses.exists_head {start : Cursor} (h : Refuses start e) :
    ∃ c ∈ start.rest.head?, c ≠ '\n' := by
  cases h with
  | string hrest => exact ⟨_, by rw [hrest]; rfl, by decide⟩
  | unknown hrest hc => exact ⟨_, by rw [hrest]; rfl, CodePoint.ne_newline_of_not_isBlank hc⟩

/-- Comments that are dropped are skipped, with the blanks behind the last of them. -/
theorem Drops.skipped {count : ℕ} {start : Cursor} {blanks : Text} (h : Drops f count cursor middle)
    (hblanks : ∀ c ∈ blanks, c.isBlank) (hpass : middle.Passes blanks start)
    (hstart : ∃ c ∈ start.rest.head?, c ≠ '\n') :
    ∃ gap, Skipped f false gap ∧ cursor.Passes gap start := by
  induction h with
  | nothing => exact ⟨blanks, .blank hblanks, hpass⟩
  | comment h hkeeps _ ih =>
    obtain ⟨gap, hgap, hlater⟩ := ih hpass
    obtain ⟨taken, hfirst, hskipped⟩ :=
      (step_of_read h).skipped_append hkeeps hgap hlater.1 hstart
    exact ⟨taken ++ gap, hskipped, hfirst.trans hlater⟩

theorem refuses_of_next (h : cursor.next f = (.error e, later)) (he : e.IsAtStart) :
    ∃ gap start, Skipped f false gap ∧ cursor.Passes gap start ∧ Refuses start e := by
  obtain ⟨count, middle, hdrops, hread, -⟩ := exists_drops f cursor
  rw [h] at hread
  obtain ⟨blanks, start, hblanks, hpass, hrefuses⟩ := refuses_of_read hread.symm he
  obtain ⟨gap, hgap, hstart⟩ := hdrops.skipped hblanks hpass hrefuses.exists_head
  exact ⟨gap, start, hgap, hstart, hrefuses⟩

/-- An error of reading an element is one of reading a token behind others. -/
theorem reads_of_assemble_error {limit : Option ℤ} {stack : List OpenGroup}
    (h : cursor.assemble f limit stack = (.error (.token e), later)) :
    ∃ tokens middle, Reads f cursor tokens middle ∧ middle.next f = (.error e, later) := by
  fun_induction assemble f limit stack cursor with
  | case1 stack cursor d middle hnext =>
    cases h
    exact ⟨[], cursor, .nothing cursor, hnext⟩
  | case2 => cases h
  | case3 => cases h
  | case4 stack cursor token middle hnext d haccept =>
    cases h
    exact absurd haccept (Progress.accept_ne_error_token limit stack token e)
  | case5 => cases h
  | case6 stack cursor token middle hnext stack' haccept ih =>
    obtain ⟨tokens, last, hreads, hlast⟩ := ih h
    exact ⟨token :: tokens, last, .token hnext hreads, hlast⟩

/-- A request that fails at the start of a lexeme has read tokens up to there. -/
theorem refuses_of_tokenError? {limit : Option ℤ} {request : Request}
    (h : cursor.tokenError? f limit request = some e) (he : e.IsAtStart) :
    ∃ tokens middle gap start, Reads f cursor tokens middle ∧ Skipped f false gap ∧
      middle.Passes gap start ∧ Refuses start e := by
  cases request with
  | token =>
    rcases hnext : cursor.next f with ⟨d | result, later⟩
    · obtain rfl : d = e := by simpa [tokenError?, hnext] using h
      obtain ⟨gap, start, hstart⟩ := refuses_of_next hnext he
      exact ⟨[], cursor, gap, start, .nothing cursor, hstart⟩
    · simp [tokenError?, hnext] at h
  | element =>
    rcases helement : cursor.element f limit with ⟨d | result, later⟩
    · cases d with
      | token d =>
        obtain rfl : d = e := by simpa [tokenError?, helement] using h
        obtain ⟨tokens, middle, hreads, hnext⟩ := reads_of_assemble_error helement
        obtain ⟨gap, start, hstart⟩ := refuses_of_next hnext he
        exact ⟨tokens, middle, gap, start, hreads, hstart⟩
      | _ => simp [tokenError?, helement] at h
    · simp [tokenError?, helement] at h

end Cursor

/-- What is seen of an error in the text that is shown with it, where `row` is its line. A code
point that is broken stands for data that does not decode. -/
def TokenError.IsSeen (shown row : Text) (broken : CodePoint → Prop) : TokenError → Prop
  | .badData _ _ p => ∃ c, row[p.column.toNat]? = some c ∧ broken c
  | .unterminatedString p reached =>
    row[p.column.toNat]? = some (ofChar '"') ∧ reached = shown.place
  | .unterminatedBytes p => p = shown.place
  | .brokenBytes p c =>
    row[p.column.toNat]? = some c ∨ c = '\n' ∧ p.column = row.length
  | .unprocessable p c => row[p.column.toNat]? = some c

namespace Source

variable {f : Features} {source : Source} {broken : CodePoint → Prop} {e : TokenError}

theorem Exposes.isSeen_of_fails (h : source.Exposes broken) (hbroken : ¬ broken '\n')
    {later : Cursor} (he : source.cursor.Fails e later)
    (hfound : ∀ p c, e = .unprocessable p c → c ≠ '\n') :
    ∃ before after, source.shown = before ++ after ∧ e.position = before.place ∧
      e.IsSeen source.shown (Text.lineAround before after) broken := by
  obtain ⟨more, hshown, hnone, hsome⟩ := h
  have hplace (before : Text) : source.cursor.position.advanceOver before = before.place :=
    (Text.place_eq before).symm
  -- Where there is no fault and all is read, the cursor stands behind what is shown.
  have hend {done : Text} (hdone : source.cursor.Passes done later) (hrest : later.rest = [])
      (hfault : later.fault = none) : later.position = source.shown.place := by
    have hmore : more = [] := hnone (hdone.fault_eq.symm.trans hfault)
    rw [hshown, hmore, hdone.1, hrest, List.append_nil, List.append_nil]
    exact position_eq_place hdone
  cases he with
  | @badData taken _ cause hpass hrest hfault =>
    have hcause : source.cursor.fault ≠ none := by simp [← hpass.fault_eq, hfault]
    obtain ⟨c, hc, hcbroken⟩ := hsome hcause
    obtain ⟨tail, rfl⟩ := List.head?_eq_some_iff.mp hc
    have hnewline : c ≠ '\n' := by
      rintro rfl
      exact hbroken hcbroken
    refine ⟨taken, c :: tail, ?_, position_eq_place hpass, c, ?_, hcbroken⟩
    · rw [hshown, hpass.1, hrest, List.append_nil]
    · rw [position_eq_place hpass]
      exact Text.getElem?_lineAround taken tail hnewline
  | @unterminatedString before body _ hpass hrest hfault =>
    refine ⟨before, ofChar '"' :: (body ++ later.rest ++ more), ?_, hplace before, ?_,
      hend hpass hrest hfault⟩
    · rw [hshown, hpass.1]
      simp
    · rw [hplace]
      exact Text.getElem?_lineAround before _ (by decide)
  | @unterminatedBytes before digits _ hpass hrest hfault =>
    refine ⟨before ++ ofChar '#' :: digits, later.rest ++ more, ?_, position_eq_place hpass,
      hend hpass hrest hfault⟩
    rw [hshown, hpass.1, List.append_assoc]
  | @brokenBytes before digits rest c _ hpass hrest =>
    have hposition := position_eq_place hpass
    refine ⟨before ++ ofChar '#' :: digits, c :: (rest ++ more), ?_, hposition, ?_⟩
    · rw [hshown, hpass.1, hrest, List.append_assoc]
      rfl
    · by_cases hc : c = '\n'
      · right
        rw [hposition, hc]
        exact ⟨rfl, Text.column_eq_length_lineAround _ _⟩
      · left
        rw [hposition]
        exact Text.getElem?_lineAround _ _ hc
  | @unprocessable before c _ hpass =>
    refine ⟨before, c :: (later.rest ++ more), ?_, hplace before, ?_⟩
    · rw [hshown, hpass.1]
      simp
    · rw [TokenError.IsSeen, hplace]
      exact Text.getElem?_lineAround before _ (hfound _ c rfl)

/-- An error of a request at the cursor has its cause in the text that is shown of the source. -/
structure PointsAtCause (source : Source) (f : Features) (cursor : Cursor)
    (broken : CodePoint → Prop) (e : TokenError) : Prop where
  seen : ∃ line, source.shown.line? e.position.line = some line ∧ 0 ≤ e.position.column ∧
    e.position.column ≤ line.length ∧ e.IsSeen source.shown line broken
  /-- Behind whole tokens and what is skipped, no lexeme starts at the place of the error. -/
  atStart : e.IsAtStart → ∃ tokens middle gap start, Cursor.Reads f cursor tokens middle ∧
    Skipped f false gap ∧ middle.Passes gap start ∧ start.Refuses e

theorem Exposes.pointsAtCause (h : source.Exposes broken) (hbroken : ¬ broken '\n')
    {limit : Option ℤ} {requests : List Request} {request : Request}
    (he : (source.cursor.serveAll f limit requests).tokenError? f limit request = some e) :
    source.PointsAtCause f (source.cursor.serveAll f limit requests) broken e where
  seen := by
    obtain ⟨done, hdone⟩ := Cursor.passes_serveAll f limit source.cursor requests
    have hfails := (Cursor.fails_serve he).of_passes hdone
    have hfound : ∀ p c, e = .unprocessable p c → c ≠ '\n' := by
      rintro p c rfl
      obtain ⟨_, _, _, _, _, _, _, hrefuses⟩ := Cursor.refuses_of_tokenError? he trivial
      cases hrefuses with
      | unknown _ hc => exact CodePoint.ne_newline_of_not_isBlank hc
    obtain ⟨before, after, hshown, hposition, hseen⟩ := h.isSeen_of_fails hbroken hfails hfound
    refine ⟨Text.lineAround before after, ?_, ?_, ?_, hseen⟩
    · rw [hposition, hshown]
      exact Text.line?_place before after
    · rw [hposition]
      exact Text.column_place_nonneg before
    · rw [hposition]
      exact Text.column_place_le_length before after
  atStart := Cursor.refuses_of_tokenError? he

/-- Whatever was asked of a reader before, an error of reading points at its cause. What does not
decode is a surrogate in a text, and is shown of bytes as a replacement character. -/
theorem error_points_at_cause (f : Features) (limit : Option ℤ) (requests : List Request)
    (request : Request) (e : TokenError) :
    (∀ text,
      ((ofText text).cursor.serveAll f limit requests).tokenError? f limit request = some e →
        (ofText text).PointsAtCause f ((ofText text).cursor.serveAll f limit requests)
          (fun c => c.isSurrogate) e) ∧
    ∀ bytes,
      ((ofBytes bytes).cursor.serveAll f limit requests).tokenError? f limit request = some e →
        (ofBytes bytes).PointsAtCause f ((ofBytes bytes).cursor.serveAll f limit requests)
          (fun c => c = '\uFFFD') e :=
  ⟨fun text => (exposes_ofText text).pointsAtCause (by decide),
    fun bytes => (exposes_ofBytes bytes).pointsAtCause (by decide)⟩

/-- The string that is opened in the first line meets the byte in the second. -/
theorem error_points_at_cause_in_second_line :
    let source := ofBytes [0x22, 0x0A, 0x61, 0xFF]
    let e := TokenError.badData .invalidSequence 3 ⟨2, 1⟩
    source.cursor.tokenError? {} none .token = some e ∧
      source.PointsAtCause {} source.cursor (fun c => c = '\uFFFD') e := by
  intro source e
  have he : source.cursor.tokenError? {} none .token = some e := by decide +kernel
  exact ⟨he, (error_points_at_cause {} none [] .token e).2 _ he⟩

end Source
end SExpression
