import SExpression.Proofs.Printing
import SExpression.Proofs.Restart

/-! Documents concatenate. A newline goes on with no lexeme, so that a text which is read to its end
is read the same where a newline follows, and from there on reading is a fresh start. -/
namespace SExpression
open CodePoint (ofChar)

theorem not_extends_newline (f : Features) (lexeme : Lexeme) : ¬ Extends f lexeme '\n' := by
  cases lexeme with
  | opening => exact id
  | closing => exact id
  | comment => exact not_not_intro rfl
  | atom => exact not_extends_of_separates (.inr (.inl rfl))

theorem Ends.append_newline {f : Features} {lexeme : Lexeme} {rest : Text}
    (h : Ends f lexeme rest) (more : Text) : Ends f lexeme (rest ++ ofChar '\n' :: more) := by
  intro c hc
  cases rest with
  | nil =>
    obtain rfl := Option.mem_some_iff.mp hc
    exact not_extends_newline f lexeme
  | cons d ds => exact h c hc

/-- A place that many lines further down. -/
def Position.down (lines : ℕ) (p : Position) : Position :=
  ⟨p.line + lines, p.column⟩

theorem Position.rebase_lineStart (lines : ℕ) :
    (⟨1 + lines, 0⟩ : Position).rebase = Position.down lines := by
  funext p
  simp only [rebase, down, zero_add, ite_self, mk.injEq, and_true]
  omega

namespace Cursor

/-- The cursor where more text and then a fault come behind what is left to it. -/
def followedBy (cursor : Cursor) (more : Text) (fault : Option Utf8.DecodeError) : Cursor :=
  { cursor with rest := cursor.rest ++ more, fault }

/-- The cursor behind what is left to it and a newline, if `more` and a fault come there. -/
def nextLine (cursor : Cursor) (more : Text) (fault : Option Utf8.DecodeError) : Cursor :=
  (cursor.followedBy (ofChar '\n' :: more) fault).pass (cursor.rest ++ [ofChar '\n']) more

variable {f : Features} {cursor later : Cursor} {token : Token}
  (more : Text) (fault : Option Utf8.DecodeError)

theorem Passes.nextLine_eq {taken : Text} (h : cursor.Passes taken later) :
    later.nextLine more fault = cursor.nextLine more fault := by
  have hlater : later.followedBy (ofChar '\n' :: more) fault =
      (cursor.followedBy (ofChar '\n' :: more) fault).pass taken
        (later.rest ++ ofChar '\n' :: more) := by
    rw [h.2]
    rfl
  rw [nextLine, nextLine, hlater, pass_pass, h.1, List.append_assoc]

theorem Step.followedBy (h : Step f cursor token later) :
    Step f (cursor.followedBy (ofChar '\n' :: more) fault) token
      (later.followedBy (ofChar '\n' :: more) fault) := by
  obtain @⟨blanks, spelling, rest, lexeme, hrest, hblanks, h, hends, -⟩ := h
  have hwhole : (cursor.followedBy (ofChar '\n' :: more) fault).rest =
      blanks ++ spelling ++ (rest ++ ofChar '\n' :: more) := by
    rw [← List.append_assoc, ← hrest]
    rfl
  exact .lexeme hwhole hblanks h (hends.append_newline more) (by simp)

/-- Blanks that come next do not count. -/
theorem read_pass_blanks (f : Features) {blanks rest : Text} (hrest : cursor.rest = blanks ++ rest)
    (hblanks : ∀ c ∈ blanks, c.isBlank) : (cursor.pass blanks rest).read f = cursor.read f := by
  have hskip : (cursor.pass blanks rest).skipBlanks = cursor.skipBlanks := by
    simp only [skipBlanks, rest_pass, pass_pass, hrest, List.takeWhile_append_of_pos hblanks,
      List.dropWhile_append_of_pos hblanks]
  simp only [read, hskip]

theorem next_followedBy_of_some (h : cursor.next f = (.ok (some token), later)) :
    (cursor.followedBy (ofChar '\n' :: more) fault).next f =
      (.ok (some token), later.followedBy (ofChar '\n' :: more) fault) := by
  rw [next_eq_ok_some_iff] at h ⊢
  induction h with
  | keep h hkeeps => exact .keep (h.followedBy more fault) hkeeps
  | skip hcomment hkeeps _ ih => exact .skip (hcomment.followedBy more fault) hkeeps ih

/-- Where reading came to the end, it goes on behind the newline. -/
theorem next_followedBy_of_none (h : cursor.next f = (.ok none, later)) :
    (cursor.followedBy (ofChar '\n' :: more) fault).next f =
      (cursor.nextLine more fault).next f := by
  fun_induction next f cursor with
  | case1 cursor comment middle hread hskip ih =>
    obtain ⟨taken, hpass⟩ := passes_of_read hread
    have hkeeps : ¬ Keeps f comment.lexeme := by simp [keeps_iff, hskip]
    have hcomment := read_of_step ((step_of_read hread).followedBy more fault)
    rw [next_of_not_keeps hcomment hkeeps, ih h, hpass.nextLine_eq]
  | case2 => cases h
  | case3 cursor hno =>
    obtain ⟨hblank, -, -⟩ := read_eq_ok_none_iff.mp h
    have hblanks : ∀ c ∈ cursor.rest ++ [ofChar '\n'], c.isBlank :=
      List.forall_mem_append.mpr ⟨hblank, by decide⟩
    have hrest : (cursor.followedBy (ofChar '\n' :: more) fault).rest =
        (cursor.rest ++ [ofChar '\n']) ++ more := by
      rw [List.append_assoc]
      rfl
    have hread := read_pass_blanks f hrest hblanks
    rw [next_eq f (cursor.followedBy _ fault), next_eq f (cursor.nextLine more fault), nextLine,
      hread]

end Cursor

namespace Assembly

/-- Tokens that are read to the end run through in front of a newline too, and what they have built
goes on behind it. -/
theorem resume_followedBy {f : Features} {limit : Option ℤ} {cursor : Cursor} {a b : Assembly}
    (herror : (cursor.tokens f).error = none) (h : a.run limit (cursor.tokens f).tokens = .ok b)
    (more : Text) (fault : Option Utf8.DecodeError) :
    resume f limit a (cursor.followedBy (ofChar '\n' :: more) fault) =
      resume f limit b (cursor.nextLine more fault) := by
  fun_induction Cursor.tokens f cursor generalizing a with
  | case1 => cases herror
  | case2 cursor later hnext =>
    cases h
    exact resume_congr (Cursor.next_followedBy_of_none more fault hnext) limit _
  | case3 cursor token later hnext tail =>
    rename_i ih
    obtain ⟨c, hmoves, hrun⟩ := exists_moves_of_run_cons h
    obtain ⟨taken, hpass⟩ := Cursor.passes_of_next hnext
    rw [resume_of_moves (Cursor.next_followedBy_of_some more fault hnext) hmoves,
      ih herror hrun, hpass.nextLine_eq]

end Assembly

namespace Source

variable {f : Features} {limit : Option ℤ}

/-- A text that is read to its end can be encoded. -/
theorem isScalar_of_tokenize {text : Text} {tokens : List Token}
    (h : (ofText text).tokenize f = .ok tokens) : ∀ c ∈ text, c.IsScalar := by
  obtain ⟨-, -, -, -, -, hfault⟩ := Cursor.skipped_of_tokens (tokenize_eq_ok_iff.mp h).1
  simpa [cursor, ofText, Cursor.ofBytes, Utf8.decode_encode_eq] using hfault

/-- The cursor of a whole is that of its first line, where the other text comes behind. -/
theorem cursor_append_line {a : Text} (h : ∀ c ∈ a, c.IsScalar) (b : Text) :
    (ofText (a ++ ofChar '\n' :: b)).cursor = (ofText a).cursor.followedBy
      (ofChar '\n' :: (ofText b).cursor.rest) (ofText b).cursor.fault := by
  have hline : ∀ c ∈ a ++ [ofChar '\n'], c.IsScalar := List.forall_mem_append.mpr ⟨h, by decide⟩
  have hdecode := Utf8.decode_encode_append hline b.encode
  rw [← Text.encode_append, List.append_assoc, List.singleton_append] at hdecode
  rw [cursor_ofText h]
  simp [cursor, ofText, Cursor.ofBytes, Cursor.followedBy, hdecode]

theorem nextLine_cursor {a : Text} (h : ∀ c ∈ a, c.IsScalar) (b : Text) :
    (ofText a).cursor.nextLine (ofText b).cursor.rest (ofText b).cursor.fault =
      (ofText b).cursor.rebase ⟨1 + (1 + a.count (ofChar '\n') : ℕ), 0⟩ (a.encode.length + 1) := by
  have hplace : ({} : Position).advanceOver (a ++ [ofChar '\n']) =
      ⟨1 + (1 + a.count (ofChar '\n') : ℕ), 0⟩ := by
    rw [← Text.place_eq, Text.place_append, Text.place]
    simp [Position.advance]
    omega
  have hlength : (a ++ [ofChar '\n']).encode.length = a.encode.length + 1 := by
    rw [Text.encode_append, List.length_append]
    rfl
  rw [cursor_ofText h]
  simp [Cursor.nextLine, Cursor.followedBy, Cursor.pass, hplace, hlength, Cursor.rebase,
    cursor, Cursor.ofBytes]

/-- A document that parses, a newline and another text parse to the elements of the document and
then those of the text, that many lines further down, up to the error of the text if it has one. -/
theorem parse_append_line {a : Text} {es : List Element} (h : (ofText a).parse f limit = .ok es)
    (b : Text) :
    let whole := ofText (a ++ ofChar '\n' :: b)
    let down := Position.down (1 + a.count (ofChar '\n'))
    (∀ ds, (ofText b).parse f limit = .ok ds →
      whole.parse f limit = .ok (es ++ ds.map (Element.relocate down))) ∧
    (∀ e, (ofText b).parse f limit = .error e →
      whole.parse f limit = .error (e.relocate down (a.encode.length + 1))) ∧
    (whole.cursor.elements f limit).elements =
      es ++ ((ofText b).cursor.elements f limit).elements.map (Element.relocate down) := by
  intro whole down
  obtain ⟨tokens, htokenize, hrun⟩ := parse_eq_ok_iff_run.mp h
  have hscalar := isScalar_of_tokenize htokenize
  obtain ⟨herror, rfl⟩ := tokenize_eq_ok_iff.mp htokenize
  have hline : 1 ≤ (ofText b).cursor.position.line := le_rfl
  have hwhole : whole.cursor.elements f limit =
      ⟨es ++ ((ofText b).cursor.elements f limit).elements.map (Element.relocate down),
        ((ofText b).cursor.elements f limit).error.map
          (ParseError.relocate down (a.encode.length + 1)),
        ((ofText b).cursor.elements f limit).stop.rebase
          ⟨1 + (1 + a.count (ofChar '\n') : ℕ), 0⟩ (a.encode.length + 1)⟩ := by
    rw [elements_eq_resume, cursor_append_line hscalar, Assembly.resume_followedBy herror hrun,
      Assembly.resume_top, nextLine_cursor hscalar, Cursor.elements_rebase _ _ f limit hline,
      Position.rebase_lineStart]
  refine ⟨fun ds hds => ?_, fun e he => ?_, by rw [hwhole]⟩
  · obtain ⟨hnone, rfl⟩ := parse_eq_ok_iff.mp hds
    rw [parse_eq_ok_iff, hwhole, hnone]
    exact ⟨rfl, rfl⟩
  · rw [parse_eq_error_iff, hwhole, parse_eq_error_iff.mp he]
    rfl

/-- The comment ends where the text did, and the string is open two lines further down. -/
theorem parse_comment_then_open_string : (ofText "(\n);c\nx \"").parse {} (some 1) =
    .error (.token (.unterminatedString ⟨3, 2⟩ ⟨3, 3⟩)) := by
  have hfirst : (ofText "(\n);c").parse {} (some 1) =
      .ok [.group .round [] ⟨⟨1, 0⟩, ⟨2, 1⟩⟩, .comment ";c" ⟨⟨2, 1⟩, ⟨2, 3⟩⟩] :=
    parse_eq_ok_iff_run.mpr ⟨[⟨.opening .round, ⟨⟨1, 0⟩, ⟨1, 1⟩⟩⟩,
      ⟨.closing .round, ⟨⟨2, 0⟩, ⟨2, 1⟩⟩⟩, ⟨.comment ";c", ⟨⟨2, 1⟩, ⟨2, 3⟩⟩⟩],
      by decide +kernel, rfl⟩
  have hsecond : (ofText "x \"").parse {} (some 1) =
      .error (.token (.unterminatedString ⟨1, 2⟩ ⟨1, 3⟩)) :=
    parse_eq_error_iff.mpr (by decide +kernel)
  exact (parse_append_line hfirst "x \"").2.1 _ hsecond

end Source
end SExpression
