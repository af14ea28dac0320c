import SExpression.Proofs.Decoding
import SExpression.Proofs.Passage
import SExpression.Proofs.Places

/-! How tokens lie in the text that is shown of their source: the span of each selects its
spelling, they come one after another, and between them stands only what reading skips. -/
namespace SExpression
open CodePoint (ofChar)

/-- What reading skips: blanks, and whole comments where comments are no tokens. The last comment
may end with the text instead of its line. -/
inductive Skipped (f : Features) (atEnd : Bool) : Text → Prop
  | blank {blanks : Text} (h : ∀ c ∈ blanks, c.isBlank) : Skipped f atEnd blanks
  | comment {blanks more rest : Text} (hf : f.comments = false) (hblanks : ∀ c ∈ blanks, c.isBlank)
      (hmore : ofChar '\n' ∉ more) (hrest : Skipped f atEnd (ofChar '\n' :: rest)) :
      Skipped f atEnd (blanks ++ ofChar ';' :: more ++ ofChar '\n' :: rest)
  | lastComment {blanks more : Text} (hend : atEnd) (hf : f.comments = false)
      (hblanks : ∀ c ∈ blanks, c.isBlank) (hmore : ofChar '\n' ∉ more) :
      Skipped f atEnd (blanks ++ ofChar ';' :: more)

theorem Skipped.comment_append {f : Features} {atEnd : Bool} {blanks more rest : Text}
    (hf : f.comments = false) (hblanks : ∀ c ∈ blanks, c.isBlank) (hmore : ofChar '\n' ∉ more)
    (hhead : ∀ c ∈ rest.head?, c = '\n') (hend : rest = [] → atEnd) (hrest : Skipped f atEnd rest) :
    Skipped f atEnd (blanks ++ ofChar ';' :: more ++ rest) := by
  cases rest with
  | nil =>
    rw [List.append_nil]
    exact .lastComment (hend rfl) hf hblanks hmore
  | cons c cs =>
    obtain rfl := hhead c rfl
    exact .comment hf hblanks hmore hrest

/-- The place behind the last of the tokens, or else the one that they start from. -/
def Token.behind (p : Position) (tokens : List Token) : Position :=
  (tokens.getLast?.map fun token => token.span.stop).getD p

@[simp] theorem Token.behind_cons (p : Position) (token : Token) (tokens : List Token) :
    behind p (token :: tokens) = behind token.span.stop tokens := by
  cases tokens <;> rfl

/-- The token lies in the text behind the place, with nothing between but what is skipped. -/
structure Token.Follows (f : Features) (text : Text) (p : Position) (token : Token) : Prop where
  spelled : text.slice? token.span = some token.lexeme.spelling
  le_start : p ≤ token.span.start
  start_lt_stop : token.span.start < token.span.stop
  skipped : ∃ gap, Skipped f false gap ∧ text.slice? ⟨p, token.span.start⟩ = some gap

namespace Cursor

variable {f : Features} {cursor later : Cursor} {token : Token}

/-- A comment that the features do not keep goes up to the end of its line or of the text. -/
theorem Step.comment_of_not_keeps (h : Step f cursor token later)
    (hkeeps : ¬ Keeps f token.lexeme) :
    f.comments = false ∧ ∃ blanks more, (∀ c ∈ blanks, c.isBlank) ∧ ofChar '\n' ∉ more ∧
      cursor.Passes (blanks ++ ofChar ';' :: more) later ∧ ∀ c ∈ later.rest.head?, c = '\n' := by
  obtain @⟨blanks, spelling, rest, lexeme, hrest, hblanks, h, hends, -⟩ := h
  obtain ⟨hcomment, hf⟩ : lexeme.isComment ∧ f.comments = false := by simpa [Keeps] using hkeeps
  cases h with
  | @comment more hmore =>
    refine ⟨hf, blanks, more, hblanks, fun hmem => hmore _ hmem rfl, passes_pass hrest, ?_⟩
    intro c hc
    exact not_not.mp (hends c hc)
  | _ => cases hcomment

/-- A comment that the features do not keep is skipped with what is skipped behind it, up to what
starts with no newline. -/
theorem Step.skipped_append {gap more : Text} (h : Step f cursor token later)
    (hkeeps : ¬ Keeps f token.lexeme) (hgap : Skipped f false gap)
    (hrest : later.rest = gap ++ more) (hmore : ∃ c ∈ more.head?, c ≠ '\n') :
    ∃ taken, cursor.Passes taken later ∧ Skipped f false (taken ++ gap) := by
  obtain ⟨hf, blanks, comment, hblanks, hcomment, hpass, hhead⟩ := h.comment_of_not_keeps hkeeps
  rw [hrest] at hhead
  -- A newline ends the comment, so that some is skipped behind it.
  have hne : gap ≠ [] := by
    rintro rfl
    obtain ⟨c, hc, hnewline⟩ := hmore
    exact hnewline (hhead c hc)
  have hgaphead : ∀ c ∈ gap.head?, c = '\n' := by
    intro c hc
    apply hhead c
    rw [List.head?_append, Option.mem_def.mp hc]
    rfl
  exact ⟨_, hpass,
    hgap.comment_append hf hblanks hcomment hgaphead fun hnil => absurd hnil hne⟩

/-- A token comes behind what is skipped, and its span is the part that its spelling takes up. -/
theorem skipped_of_next_some (h : cursor.next f = (.ok (some token), later)) :
    Spells f token.lexeme.spelling token.lexeme ∧ ∃ gap, Skipped f false gap ∧
      cursor.Passes (gap ++ token.lexeme.spelling) later ∧
      token.span = ⟨cursor.position.advanceOver gap, later.position⟩ := by
  rw [next_eq_ok_some_iff] at h
  induction h with
  | keep h _ =>
    obtain ⟨blanks, hblanks, hpass, hspan⟩ := h.passes
    obtain ⟨-, -, h, -, -⟩ := h
    obtain rfl := h.eq_spelling
    exact ⟨h, blanks, .blank hblanks, hpass, hspan⟩
  | @skip cursor middle later comment token hcomment hkeeps _ ih =>
    obtain ⟨hspells, gap, hgap, hlater, hspan⟩ := ih
    obtain ⟨c, cs, hcons, hblank⟩ := hspells.exists_cons
    have hrest : middle.rest = gap ++ (token.lexeme.spelling ++ later.rest) := by
      rw [hlater.1, List.append_assoc]
    have hhead : ∃ c ∈ (token.lexeme.spelling ++ later.rest).head?, c ≠ '\n' := by
      refine ⟨c, by simp [hcons], CodePoint.ne_newline_of_not_isBlank (by simp [hblank])⟩
    obtain ⟨taken, hpass, hskipped⟩ := hcomment.skipped_append hkeeps hgap hrest hhead
    refine ⟨hspells, taken ++ gap, hskipped, ?_, ?_⟩
    · have hall := hpass.trans hlater
      rwa [← List.append_assoc] at hall
    · rw [hspan, hpass.position_eq, ← Position.advanceOver_append]

/-- At the end, nothing is left but what is skipped. -/
theorem skipped_of_next_none (h : cursor.next f = (.ok none, later)) :
    Skipped f true cursor.rest ∧ cursor.fault = none := by
  fun_induction next f cursor with
  | case1 cursor other middle hread hskip ih =>
    have hkeeps : ¬ Keeps f other.lexeme := by simp [keeps_iff, hskip]
    obtain ⟨hf, blanks, more, hblanks, hmore, hpass, hhead⟩ :=
      (step_of_read hread).comment_of_not_keeps hkeeps
    obtain ⟨hrest, hfault⟩ := ih h
    rw [hpass.fault_eq] at hfault
    rw [hpass.1]
    exact ⟨hrest.comment_append hf hblanks hmore hhead fun _ => rfl, hfault⟩
  | case2 => cases h
  | case3 cursor =>
    obtain ⟨hblanks, hfault, -⟩ := read_eq_ok_none_iff.mp h
    exact ⟨.blank hblanks, hfault⟩

theorem next_of_tokens_cons {tokens : List Token} (h : (cursor.tokens f).tokens = token :: tokens) :
    ∃ later, cursor.next f = (.ok (some token), later) ∧
      cursor.tokens f = { later.tokens f with tokens := token :: tokens } ∧
      (later.tokens f).tokens = tokens := by
  rw [tokens_eq] at h ⊢
  split at h
  next => cases h
  next => cases h
  next other later hnext =>
    obtain ⟨rfl, rfl⟩ := List.cons.inj h
    exact ⟨later, hnext, rfl, rfl⟩

theorem next_of_tokens_nil (h : (cursor.tokens f).tokens = [])
    (herror : (cursor.tokens f).error = none) :
    cursor.next f = (.ok none, (cursor.tokens f).stop) := by
  rw [tokens_eq] at h herror ⊢
  split at h
  next hnext =>
    rw [hnext] at herror
    cases herror
  next hnext => rw [hnext]
  next => cases h

/-- Behind the first of its tokens, a reader goes on with the others. -/
theorem tokens_append {before after : List Token} (h : (cursor.tokens f).tokens = before ++ after) :
    ∃ taken middle, cursor.Passes taken middle ∧
      middle.position = Token.behind cursor.position before ∧
      (middle.tokens f).tokens = after ∧ (middle.tokens f).error = (cursor.tokens f).error := by
  induction before generalizing cursor with
  | nil => exact ⟨[], cursor, .refl cursor, rfl, h, rfl⟩
  | cons token before ih =>
    obtain ⟨later, hnext, htokens, hlater⟩ := next_of_tokens_cons h
    obtain ⟨-, gap, -, hpass, hspan⟩ := skipped_of_next_some hnext
    obtain ⟨taken, middle, hmiddle, hposition, hafter, herror⟩ := ih hlater
    refine ⟨_, middle, hpass.trans hmiddle, ?_, hafter, ?_⟩
    · rw [hposition, Token.behind_cons, hspan]
    · rw [herror, htokens]

/-- Behind the last of its tokens, only what is skipped and no fault is left to a reader. -/
theorem skipped_of_tokens (h : (cursor.tokens f).error = none) :
    ∃ taken middle, cursor.Passes taken middle ∧
      middle.position = Token.behind cursor.position (cursor.tokens f).tokens ∧
      Skipped f true middle.rest ∧ cursor.fault = none := by
  obtain ⟨taken, middle, hpass, hbehind, hafter, hend⟩ :=
    tokens_append (List.append_nil (cursor.tokens f).tokens).symm
  obtain ⟨hgap, hfault⟩ := skipped_of_next_none (next_of_tokens_nil hafter (hend.trans h))
  rw [hpass.fault_eq] at hfault
  exact ⟨taken, middle, hpass, hbehind, hgap, hfault⟩

theorem start_le_of_mem_tokens :
    ∀ token ∈ (cursor.tokens f).tokens, cursor.position ≤ token.span.start := by
  fun_induction tokens f cursor with
  | case1 => simp
  | case2 => simp
  | case3 cursor token later hnext _ ih =>
    obtain ⟨-, gap, -, hpass, hspan⟩ := skipped_of_next_some hnext
    intro other hother
    rcases List.mem_cons.mp hother with rfl | hother
    · rw [hspan]
      exact Position.le_advanceOver _ gap
    · refine le_trans ?_ (ih other hother)
      rw [hpass.position_eq]
      exact Position.le_advanceOver _ _

theorem pairwise_tokens :
    (cursor.tokens f).tokens.Pairwise fun a b => a.span.stop ≤ b.span.start := by
  fun_induction tokens f cursor with
  | case1 => exact .nil
  | case2 => exact .nil
  | case3 cursor token later hnext _ ih =>
    obtain ⟨-, gap, -, -, hspan⟩ := skipped_of_next_some hnext
    refine List.pairwise_cons.mpr ⟨fun other hother => ?_, ih⟩
    rw [hspan]
    exact start_le_of_mem_tokens other hother

end Cursor

namespace Source

/-- What is shown starts with what is read, and goes on only behind a fault. -/
def Shows (source : Source) : Prop :=
  ∃ more, source.shown = source.cursor.rest ++ more ∧ (source.cursor.fault = none → more = [])

/-- Where a fault comes behind what is read, what is shown goes on with a code point of that
kind. -/
def Exposes (source : Source) (broken : CodePoint → Prop) : Prop :=
  ∃ more, source.shown = source.cursor.rest ++ more ∧ (source.cursor.fault = none → more = []) ∧
    (source.cursor.fault ≠ none → ∃ c ∈ more.head?, broken c)

theorem Exposes.shows {source : Source} {broken : CodePoint → Prop} (h : source.Exposes broken) :
    source.Shows := by
  obtain ⟨more, hshown, hmore, -⟩ := h
  exact ⟨more, hshown, hmore⟩

theorem exposes_ofText (text : Text) : (ofText text).Exposes fun c => c.isSurrogate := by
  have hrest : (ofText text).cursor.rest = text.takeWhile (·.IsScalar) :=
    congrArg Utf8.Decoded.text (Utf8.decode_encode_eq text)
  have hfault : (ofText text).cursor.fault =
      (text.dropWhile (·.IsScalar)).head?.map fun _ => .invalidSequence :=
    congrArg Utf8.Decoded.fault (Utf8.decode_encode_eq text)
  refine ⟨text.dropWhile (·.IsScalar), ?_, ?_, ?_⟩
  · rw [hrest, List.takeWhile_append_dropWhile]
    rfl
  · intro h
    simpa [hfault] using h
  · intro h
    rw [hfault, ne_eq, Option.map_eq_none_iff] at h
    obtain ⟨c, hc⟩ := Option.ne_none_iff_exists'.mp h
    have hscalar : ¬ c.IsScalar := by
      simpa using not_of_mem_head?_dropWhile c hc
    refine ⟨c, hc, ?_⟩
    simpa [CodePoint.IsScalar, CodePoint.isSurrogate] using hscalar

theorem exposes_ofBytes (bytes : Bytes) : (ofBytes bytes).Exposes fun c => c = '\uFFFD' := by
  obtain ⟨more, hmore, hhead⟩ := Utf8.exists_decodeLossy_eq bytes
  have hfault : (ofBytes bytes).cursor.fault = (Utf8.decode bytes).fault := rfl
  rw [← hfault] at hhead
  refine ⟨more, hmore, fun h => ?_, fun h => ?_⟩
  · rw [h] at hhead
    exact List.head?_eq_none_iff.mp hhead
  · obtain ⟨e, he⟩ := Option.ne_none_iff_exists'.mp h
    rw [he] at hhead
    exact ⟨_, hhead, rfl⟩

theorem shows_ofText (text : Text) : (ofText text).Shows :=
  (exposes_ofText text).shows

theorem shows_ofBytes (bytes : Bytes) : (ofBytes bytes).Shows :=
  (exposes_ofBytes bytes).shows

/-- How the tokens of a source lie in the text that is shown of it. They follow one another, and
one that is read later in any run follows where the run before left the cursor. -/
structure LaysOut (source : Source) (f : Features) : Prop where
  follows : ∀ before token after, (source.cursor.tokens f).tokens = before ++ token :: after →
    token.Follows f source.shown (Token.behind {} before)
  ordered : (source.cursor.tokens f).tokens.Pairwise fun a b => a.span.stop ≤ b.span.start
  skippedLast : (source.cursor.tokens f).error = none → ∃ gap, Skipped f true gap ∧
    source.shown.slice? ⟨Token.behind {} (source.cursor.tokens f).tokens, source.shown.place⟩ =
      some gap
  resumed : ∀ limit requests token later,
    (source.cursor.serveAll f limit requests).next f = (.ok (some token), later) →
      token.Follows f source.shown (source.cursor.serveAll f limit requests).position ∧
        token.span.stop = later.position

section Lies

variable {source : Source} {f : Features}

theorem position_eq_place {done : Text} {middle : Cursor} (h : source.cursor.Passes done middle) :
    middle.position = done.place := by
  rw [h.position_eq, Text.place_eq]
  rfl

/-- A token lies between the places that reading it starts from and comes to, behind what is
skipped. -/
theorem span_of_next {done : Text} {middle later : Cursor} {token : Token}
    (hdone : source.cursor.Passes done middle) (hnext : middle.next f = (.ok (some token), later)) :
    token.lexeme.spelling ≠ [] ∧ ∃ gap, Skipped f false gap ∧
      source.cursor.Passes (done ++ gap ++ token.lexeme.spelling) later ∧
      token.span = ⟨(done ++ gap).place, (done ++ gap ++ token.lexeme.spelling).place⟩ := by
  obtain ⟨hspells, gap, hgap, hpass, hspan⟩ := Cursor.skipped_of_next_some hnext
  have hlater := hdone.trans hpass
  rw [← List.append_assoc] at hlater
  refine ⟨hspells.ne_nil, gap, hgap, hlater, ?_⟩
  rw [hspan, position_eq_place hdone, position_eq_place hlater, ← Text.place_append]

theorem Shows.follows_of_next (h : source.Shows) {done : Text} {middle later : Cursor}
    {token : Token} (hdone : source.cursor.Passes done middle)
    (hnext : middle.next f = (.ok (some token), later)) :
    token.Follows f source.shown middle.position ∧ token.span.stop = later.position := by
  obtain ⟨more, hshown, -⟩ := h
  obtain ⟨hne, gap, hgap, hpass, hspan⟩ := span_of_next hdone hnext
  have hwhole : source.shown = done ++ gap ++ token.lexeme.spelling ++ (later.rest ++ more) := by
    rw [hshown, hpass.1, List.append_assoc]
  have hmiddle := position_eq_place hdone
  refine ⟨⟨?_, ?_, ?_, gap, hgap, ?_⟩, ?_⟩
  · rw [hspan, hwhole]
    exact Text.slice?_append _ _ _
  · rw [hspan, hmiddle, Text.place_append done gap]
    exact Position.le_advanceOver _ gap
  · rw [hspan, Text.place_append (done ++ gap)]
    exact Position.lt_advanceOver _ hne
  · rw [hspan, hmiddle, hwhole, List.append_assoc (done ++ gap)]
    exact Text.slice?_append _ _ _
  · rw [hspan, position_eq_place hpass]

theorem Shows.skipped_behind_tokens (h : source.Shows)
    (herror : (source.cursor.tokens f).error = none) :
    ∃ gap, Skipped f true gap ∧ source.shown.slice?
      ⟨Token.behind {} (source.cursor.tokens f).tokens, source.shown.place⟩ = some gap := by
  obtain ⟨more, hshown, hmore⟩ := h
  obtain ⟨done, middle, hdone, hbehind, hgap, hfault⟩ := Cursor.skipped_of_tokens herror
  have hwhole : source.shown = done ++ middle.rest := by
    rw [hshown, hmore hfault, List.append_nil]
    exact hdone.1
  have hbefore : Token.behind {} (source.cursor.tokens f).tokens = done.place :=
    hbehind.symm.trans (position_eq_place hdone)
  refine ⟨middle.rest, hgap, ?_⟩
  rw [hbefore, hwhole]
  simpa using Text.slice?_append done middle.rest []

end Lies

theorem Shows.laysOut {source : Source} (h : source.Shows) (f : Features) : source.LaysOut f where
  follows before token after htokens := by
    obtain ⟨done, middle, hdone, hbehind, hafter, -⟩ := Cursor.tokens_append htokens
    obtain ⟨later, hnext, -, -⟩ := Cursor.next_of_tokens_cons hafter
    have hfollows := (h.follows_of_next hdone hnext).1
    rwa [hbehind] at hfollows
  ordered := Cursor.pairwise_tokens
  skippedLast := h.skipped_behind_tokens
  resumed limit requests token later hnext := by
    obtain ⟨done, hdone⟩ := Cursor.passes_serveAll f limit source.cursor requests
    exact h.follows_of_next hdone hnext

/-- Whatever is read, the tokens lie in what is shown of it, those before an error too. -/
theorem tokens_lie_in_text (f : Features) :
    (∀ text, (ofText text).LaysOut f) ∧ ∀ bytes, (ofBytes bytes).LaysOut f :=
  ⟨fun text => (shows_ofText text).laysOut f, fun bytes => (shows_ofBytes bytes).laysOut f⟩

end Source
end SExpression
