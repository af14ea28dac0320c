import SExpression.Proofs.Concatenation

/-! Every element can be read again from its own part of the text: what comes before and after it
changes nothing but the place that it stands at. -/
namespace SExpression
open CodePoint (ofChar)

namespace Position

/-- Where `p` comes to be in a text on its own that is taken from `origin` on. -/
def since (origin p : Position) : Position :=
  ⟨p.line - origin.line + 1, if p.line = origin.line then p.column - origin.column else p.column⟩

@[simp] theorem since_self (origin : Position) : origin.since origin = {} := by
  simp [since]

@[simp] theorem since_rebase (origin p : Position) : origin.since (origin.rebase p) = p := by
  obtain ⟨line, column⟩ := p
  have hline : origin.line + line - 1 = origin.line ↔ line = 1 := by omega
  simp only [since, rebase, hline, mk.injEq]
  constructor
  · omega
  · split <;> omega

end Position

namespace Element

/-- The element is one of those, or one of the members of one of them, at any depth. -/
inductive Within : Element → List Element → Prop
  | here {e : Element} {es : List Element} (h : e ∈ es) : Within e es
  | inside {e : Element} {es members : List Element} {shape : Shape} {span : Span}
      (hgroup : .group shape members span ∈ es) (h : Within e members) : Within e es

theorem exists_tokensOf_of_mem {e : Element} {es : List Element} (h : e ∈ es) :
    ∃ before after, tokensOf es = before ++ e.tokens ++ after := by
  obtain ⟨before, after, rfl⟩ := List.append_of_mem h
  exact ⟨tokensOf before, tokensOf after, by simp [tokensOf]⟩

/-- The tokens of an element stand together among those of the whole. -/
theorem Within.exists_tokensOf {e : Element} {es : List Element} (h : e.Within es) :
    ∃ before after, tokensOf es = before ++ e.tokens ++ after := by
  induction h with
  | here h => exact exists_tokensOf_of_mem h
  | @inside es members shape span hgroup _ ih =>
    obtain ⟨before, after, hmembers⟩ := ih
    obtain ⟨outerBefore, outerAfter, houter⟩ := exists_tokensOf_of_mem hgroup
    refine ⟨outerBefore ++ ⟨.opening shape, span.first⟩ :: before,
      after ++ ⟨.closing shape, span.last⟩ :: outerAfter, ?_⟩
    rw [houter, tokens, hmembers]
    simp

theorem exists_tokens_eq_cons (e : Element) :
    ∃ token tokens, e.tokens = token :: tokens ∧ token.span.start = e.span.start := by
  cases e with
  | atom => exact ⟨_, _, rfl, rfl⟩
  | comment => exact ⟨_, _, rfl, rfl⟩
  | group => exact ⟨_, _, rfl, rfl⟩

theorem behind_tokens (p : Position) (e : Element) : Token.behind p e.tokens = e.span.stop := by
  cases e with
  | atom => rfl
  | comment => rfl
  | group shape members span =>
    rw [tokens, Token.behind_cons, Token.behind, List.getLast?_concat]
    rfl

theorem tokensOf_relocate_of_forall {g : Position → Position} {es : List Element}
    (h : ∀ e ∈ es, (e.relocate g).tokens = e.tokens.map (Token.relocate g)) :
    tokensOf (es.map (relocate g)) = (tokensOf es).map (Token.relocate g) := by
  induction es with
  | nil => rfl
  | cons e es ih =>
    rw [List.map_cons, tokensOf, tokensOf, List.map_append, h e (by simp),
      ih fun d hd => h d (by simp [hd])]

/-- Where moving places keeps the distances within a line, it moves the tokens of an element. -/
theorem tokens_relocate {g : Position → Position}
    (hg : ∀ (p : Position) (n : ℤ), g ⟨p.line, p.column + n⟩ = ⟨(g p).line, (g p).column + n⟩)
    (e : Element) : (e.relocate g).tokens = e.tokens.map (Token.relocate g) := by
  induction e using Element.induction with
  | atom => rfl
  | comment => rfl
  | group shape members span ih =>
    have hfirst : (span.relocate g).first = span.first.relocate g := by
      rw [Span.first, Span.first, Span.relocate, Span.relocate, hg span.start 1]
    have hlast : (span.relocate g).last = span.last.relocate g := by
      rw [Span.last, Span.last, Span.relocate, Span.relocate, sub_eq_add_neg, sub_eq_add_neg,
        hg span.stop (-1)]
    rw [relocate, relocateAll_eq_map, tokens, tokens, hfirst, hlast,
      tokensOf_relocate_of_forall ih]
    simp [Token.relocate]

end Element

theorem Position.since_column (origin p : Position) (n : ℤ) :
    origin.since ⟨p.line, p.column + n⟩ = ⟨(origin.since p).line, (origin.since p).column + n⟩ := by
  simp only [since, mk.injEq, true_and]
  split <;> omega

theorem Ends.of_append {f : Features} {lexeme : Lexeme} {rest more : Text}
    (h : Ends f lexeme (rest ++ more)) : Ends f lexeme rest := by
  intro c hc
  apply h c
  rw [List.head?_append, Option.mem_def.mp hc]
  rfl

namespace Cursor

/-- The cursor if nothing but that text, and no fault, is left to it. -/
def upTo (cursor : Cursor) (rest : Text) : Cursor :=
  { cursor with rest, fault := none }

variable {f : Features} {cursor later : Cursor} {token : Token} {taken kept more : Text}

/-- What comes behind a token has no part in it. -/
theorem Step.upTo (h : Step f cursor token later) (hpass : cursor.Passes taken later)
    (hkept : later.rest = kept ++ more) :
    Step f (cursor.upTo (taken ++ kept)) token (later.upTo kept) := by
  obtain @⟨blanks, spelling, rest, lexeme, hrest, hblanks, h, hends, -⟩ := h
  obtain rfl : blanks ++ spelling = taken :=
    List.append_cancel_right (hrest.symm.trans hpass.1)
  obtain rfl : rest = kept ++ more := hkept
  exact .lexeme rfl hblanks h hends.of_append fun _ => .inl rfl

theorem next_upTo (h : cursor.next f = (.ok (some token), later))
    (hpass : cursor.Passes taken later)
    (hkept : later.rest = kept ++ more) :
    (cursor.upTo (taken ++ kept)).next f = (.ok (some token), later.upTo kept) := by
  rw [next_eq_ok_some_iff] at h ⊢
  induction h generalizing taken with
  | keep h hkeeps => exact .keep (h.upTo hpass hkept) hkeeps
  | @skip cursor middle later comment token hcomment hkeeps h ih =>
    obtain ⟨blanks, -, hfirst, -⟩ := hcomment.passes
    obtain ⟨second, hsecond⟩ := passes_of_next (next_eq_ok_some_iff.mpr h)
    obtain rfl := List.append_cancel_right ((hfirst.trans hsecond).1.symm.trans hpass.1)
    have hmiddle : middle.rest = (second ++ kept) ++ more := by
      rw [hsecond.1, hkept, List.append_assoc]
    rw [List.append_assoc]
    exact .skip (hcomment.upTo hfirst hmiddle) hkeeps (ih hsecond hkept)

/-- The first of the tokens make up all that is read of the text up to their end. -/
theorem tokens_upTo {before after : List Token} (h : (cursor.tokens f).tokens = before ++ after) :
    ∃ taken later, cursor.Passes taken later ∧
      later.position = Token.behind cursor.position before ∧
      (cursor.upTo taken).tokens f = ⟨before, none, later.upTo []⟩ := by
  induction before generalizing cursor with
  | nil =>
    refine ⟨[], cursor, .refl cursor, rfl, ?_⟩
    rw [tokens_eq, next_of_rest_nil rfl rfl]
    simp [pass, upTo, Text.encode]
  | cons token before ih =>
    obtain ⟨middle, hnext, -, hmiddle⟩ := next_of_tokens_cons h
    obtain ⟨-, gap, -, hpass, hspan⟩ := skipped_of_next_some hnext
    obtain ⟨taken, later, hlater, hposition, htokens⟩ := ih hmiddle
    refine ⟨_, later, hpass.trans hlater, ?_, ?_⟩
    · rw [hposition, Token.behind_cons, hspan]
    · rw [tokens_eq, next_upTo hnext hpass hlater.1]
      simp only [htokens]

/-- Reading may as well start where the token does. -/
theorem next_from_start (h : cursor.next f = (.ok (some token), later)) :
    ∃ gap start, cursor.Passes gap start ∧ start.position = token.span.start ∧
      start.next f = (.ok (some token), later) := by
  rw [next_eq_ok_some_iff] at h
  induction h with
  | @keep cursor _ _ h hkeeps =>
    obtain @⟨blanks, spelling, rest, lexeme, hrest, hblanks, h, hends, hfault⟩ := h
    have hgap : cursor.rest = blanks ++ (spelling ++ rest) := by rw [hrest, List.append_assoc]
    have hrest' : (cursor.pass blanks (spelling ++ rest)).rest = [] ++ spelling ++ rest := rfl
    have hstep := Step.lexeme hrest' (by simp) h hends hfault
    have hnext := next_of_read (read_of_step hstep) hkeeps
    rw [pass_pass] at hnext
    refine ⟨blanks, _, passes_pass hgap, rfl, ?_⟩
    simpa [pass] using hnext
  | skip hcomment _ _ ih =>
    obtain ⟨blanks, -, hfirst, -⟩ := hcomment.passes
    obtain ⟨gap, start, hgap, hstart, hnext⟩ := ih
    exact ⟨_, start, hfirst.trans hgap, hstart, hnext⟩

end Cursor

theorem Token.map_since_rebase (origin : Position) (tokens : List Token) :
    (tokens.map (Token.relocate origin.rebase)).map (Token.relocate origin.since) = tokens := by
  rw [List.map_map]
  conv_rhs => rw [← List.map_id tokens]
  apply List.map_congr_left
  intro token _
  simp [Token.relocate, Span.relocate]

namespace Source

variable {f : Features} {source : Source}

/-- The part of the text that an element takes up, between what comes before and after, and what
is read of that part where it stands. -/
theorem exists_part {es : List Element} (h : source.parse f none = .ok es) {e : Element}
    (he : e.Within es) : ∃ (before part after : Text) (start : Cursor),
      source.cursor.rest = before ++ part ++ after ∧
      start.position = e.span.start ∧ e.span = ⟨before.place, (before ++ part).place⟩ ∧
      ((start.upTo part).tokens f).tokens = e.tokens ∧
      ((start.upTo part).tokens f).error = none := by
  obtain ⟨earlier, further, htokens⟩ := he.exists_tokensOf
  obtain ⟨-, htokenize⟩ := tokenize_eq_ok_iff.mp ((parse_eq_ok_iff_tokenize f source es).mp h)
  rw [htokens, List.append_assoc] at htokenize
  obtain ⟨done, cursor, hdone, -, hcursor, -⟩ := Cursor.tokens_append htokenize
  -- The element starts at its first token, and not at the blanks or comments before it.
  obtain ⟨token, tokens, hcons, hstart⟩ := e.exists_tokens_eq_cons
  rw [hcons] at hcursor
  obtain ⟨later, hnext, -, hlater⟩ := Cursor.next_of_tokens_cons hcursor
  obtain ⟨gap, start, hgap, hposition, hnext⟩ := Cursor.next_from_start hnext
  have hall : (start.tokens f).tokens = e.tokens ++ further := by
    rw [Cursor.tokens_eq, hnext, hcons]
    exact congrArg (token :: ·) hlater
  obtain ⟨part, stop, hpart, hstop, hread⟩ := Cursor.tokens_upTo hall
  have hbefore := hdone.trans hgap
  refine ⟨done ++ gap, part, stop.rest, start, ?_, hposition.trans hstart, ?_, ?_⟩
  · rw [List.append_assoc, hbefore.1, hpart.1]
  · have hfirst : e.span.start = (done ++ gap).place := by
      rw [← hstart, ← hposition]
      exact position_eq_place hbefore
    have hlast : e.span.stop = (done ++ gap ++ part).place := by
      rw [← e.behind_tokens start.position, ← hstop]
      exact position_eq_place (hbefore.trans hpart)
    rw [← hfirst, ← hlast]
  · rw [hread]
    exact ⟨rfl, rfl⟩

/-- A part that reads as an element where it stands parses to that element on its own, with its
places counted from the start of the part. -/
theorem parse_part {part : Text} (hscalar : ∀ c ∈ part, c.IsScalar) {start : Cursor} {e : Element}
    (htokens : ((start.upTo part).tokens f).tokens = e.tokens)
    (herror : ((start.upTo part).tokens f).error = none) :
    (ofText part).parse f none = .ok [e.relocate start.position.since] := by
  have hstart : start.upTo part = (ofText part).cursor.rebase start.position start.offset := by
    simp [cursor_ofText hscalar, Cursor.upTo, Cursor.rebase]
  have hline : 1 ≤ (ofText part).cursor.position.line := le_rfl
  rw [hstart, Cursor.tokens_rebase _ _ f hline] at htokens herror
  rw [parse_eq_ok_iff_tokenize, tokenize_eq_ok_iff]
  refine ⟨Option.map_eq_none_iff.mp herror, ?_⟩
  rw [Element.tokensOf, Element.tokensOf, List.append_nil,
    Element.tokens_relocate (Position.since_column start.position), ← htokens,
    Token.map_since_rebase]

/-- Every element of a source that parses, at any depth, is what its own part of the text parses
to, with all its places counted from its start. -/
theorem parse_slice {es : List Element}
    (hsource : (∃ text, source = ofText text) ∨ ∃ bytes, source = ofBytes bytes)
    (h : source.parse f none = .ok es) {e : Element} (he : e.Within es) :
    ∃ part, source.shown.slice? e.span = some part ∧
      (ofText part).parse f none = .ok [e.relocate e.span.start.since] := by
  obtain ⟨more, hshown, -⟩ : source.Shows := by
    obtain ⟨text, rfl⟩ | ⟨bytes, rfl⟩ := hsource
    · exact shows_ofText text
    · exact shows_ofBytes bytes
  obtain ⟨before, part, after, start, hrest, hposition, hspan, htokens, herror⟩ := exists_part h he
  have hscalar : ∀ c ∈ part, c.IsScalar := by
    intro c hc
    have hmem : c ∈ source.cursor.rest := by simp [hrest, hc]
    exact Utf8.isScalar_of_mem_decode c hmem
  refine ⟨part, ?_, ?_⟩
  · rw [hspan, hshown, hrest, List.append_assoc]
    exact Text.slice?_append _ _ _
  · rw [← hposition]
    exact parse_part hscalar htokens herror

/-- The group starts in its second line, where the number touches what is before and behind it. -/
theorem parse_slice_of_inner_group :
    (ofText "(0b1\n 2)").parse { comments := false } none =
      .ok [.group .round [.atom (.integer .binary "1") ⟨⟨1, 1⟩, ⟨1, 4⟩⟩,
        .atom (.integer .decimal "2") ⟨⟨2, 1⟩, ⟨2, 2⟩⟩] ⟨⟨1, 0⟩, ⟨2, 3⟩⟩] := by
  have hparse : (ofBytes (Text.encode "[;a\nx(0b1\n 2)]")).parse { comments := false } none =
      .ok [.group .square [.atom (.identifier "x") ⟨⟨2, 0⟩, ⟨2, 1⟩⟩,
        .group .round [.atom (.integer .binary "1") ⟨⟨2, 2⟩, ⟨2, 5⟩⟩,
          .atom (.integer .decimal "2") ⟨⟨3, 1⟩, ⟨3, 2⟩⟩] ⟨⟨2, 1⟩, ⟨3, 3⟩⟩] ⟨⟨1, 0⟩, ⟨3, 4⟩⟩] :=
    parse_eq_ok_iff_run.mpr ⟨[⟨.opening .square, ⟨⟨1, 0⟩, ⟨1, 1⟩⟩⟩,
      ⟨.atom (.identifier "x"), ⟨⟨2, 0⟩, ⟨2, 1⟩⟩⟩, ⟨.opening .round, ⟨⟨2, 1⟩, ⟨2, 2⟩⟩⟩,
      ⟨.atom (.integer .binary "1"), ⟨⟨2, 2⟩, ⟨2, 5⟩⟩⟩,
      ⟨.atom (.integer .decimal "2"), ⟨⟨3, 1⟩, ⟨3, 2⟩⟩⟩,
      ⟨.closing .round, ⟨⟨3, 2⟩, ⟨3, 3⟩⟩⟩, ⟨.closing .square, ⟨⟨3, 3⟩, ⟨3, 4⟩⟩⟩],
      by decide +kernel, rfl⟩
  obtain ⟨part, hslice, hpart⟩ := parse_slice (.inr ⟨_, rfl⟩) hparse
    (.inside (List.mem_singleton_self _)
      (.here (List.mem_cons_of_mem _ (List.mem_singleton_self _))))
  have hshown : (ofBytes (Text.encode "[;a\nx(0b1\n 2)]")).shown.slice? ⟨⟨2, 1⟩, ⟨3, 3⟩⟩ =
      some (Text.ofString "(0b1\n 2)") := by decide +kernel
  obtain rfl : part = Text.ofString "(0b1\n 2)" := Option.some.inj (hslice.symm.trans hshown)
  exact hpart

end Source
end SExpression
