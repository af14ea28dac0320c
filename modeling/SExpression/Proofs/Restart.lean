import SExpression.Proofs.Boundaries

/-! Reading does not see where a text stands. A cursor at another place and offset answers with the
same tokens, elements and errors, moved there, so that going on from any cursor is the same as a
fresh start on what is left of the bytes. -/
namespace SExpression

namespace Position

/-- Where `p`, a place of a text on its own, comes to be if that text starts at `origin`. -/
def rebase (origin p : Position) : Position :=
  ⟨origin.line + p.line - 1, if p.line = 1 then origin.column + p.column else p.column⟩

@[simp] theorem rebase_start (origin : Position) : origin.rebase {} = origin := by
  simp [rebase]

theorem one_le_line_advance {p : Position} (h : 1 ≤ p.line) (c : CodePoint) :
    1 ≤ (p.advance c).line := by
  unfold advance
  split
  · show 1 ≤ p.line + 1
    omega
  · exact h

theorem one_le_line_advanceOver {p : Position} (h : 1 ≤ p.line) (text : Text) :
    1 ≤ (p.advanceOver text).line := by
  induction text generalizing p with
  | nil => exact h
  | cons c cs ih => exact ih (one_le_line_advance h c)

theorem rebase_advance (origin : Position) {p : Position} (h : 1 ≤ p.line) (c : CodePoint) :
    origin.rebase (p.advance c) = (origin.rebase p).advance c := by
  unfold advance rebase
  by_cases hc : c = '\n'
  · have hline : p.line + 1 ≠ 1 := by omega
    simp only [hc, if_true, hline, if_false, mk.injEq, and_true]
    omega
  · by_cases hline : p.line = 1
    · simp [hc, hline, add_assoc]
    · simp [hc, hline]

theorem rebase_advanceOver (origin : Position) {p : Position} (h : 1 ≤ p.line) (text : Text) :
    origin.rebase (p.advanceOver text) = (origin.rebase p).advanceOver text := by
  induction text generalizing p with
  | nil => rfl
  | cons c cs ih =>
    rw [advanceOver_cons, ih (one_le_line_advance h c), rebase_advance origin h c,
      advanceOver_cons]

end Position

section Relocate

variable (g : Position → Position) (offset : ℕ)

def Span.relocate (s : Span) : Span :=
  ⟨g s.start, g s.stop⟩

def Token.relocate (t : Token) : Token :=
  ⟨t.lexeme, t.span.relocate g⟩

/-- The error with its places moved by `g` and its offset put behind `offset` more bytes. -/
def TokenError.relocate : TokenError → TokenError
  | .badData cause n position => .badData cause (offset + n) (g position)
  | .unterminatedString position reached => .unterminatedString (g position) (g reached)
  | .unterminatedBytes position => .unterminatedBytes (g position)
  | .brokenBytes position found => .brokenBytes (g position) found
  | .unprocessable position found => .unprocessable (g position) found

def ParseError.relocate : ParseError → ParseError
  | .token e => .token (e.relocate g offset)
  | .unopened shape span => .unopened shape (span.relocate g)
  | .mismatched expected found span => .mismatched expected found (span.relocate g)
  | .unfinished shape span => .unfinished shape (span.relocate g)
  | .tooDeep limit span => .tooDeep limit (span.relocate g)

mutual

/-- The element with all its places moved by `g`, those of its members too. -/
def Element.relocate : Element → Element
  | .atom value span => .atom value (span.relocate g)
  | .comment text span => .comment text (span.relocate g)
  | .group shape members span => .group shape (Element.relocateAll members) (span.relocate g)

def Element.relocateAll : List Element → List Element
  | [] => []
  | e :: es => Element.relocate e :: Element.relocateAll es

end

@[simp] theorem Element.relocateAll_eq_map (es : List Element) :
    relocateAll g es = es.map (relocate g) := by
  induction es with
  | nil => rfl
  | cons e es ih => rw [relocateAll, ih, List.map_cons]

def OpenGroup.relocate (group : OpenGroup) : OpenGroup :=
  ⟨group.shape, group.span.relocate g, group.members.map (Element.relocate g)⟩

def Progress.relocate : Progress → Progress
  | .unfinished stack => .unfinished (stack.map (OpenGroup.relocate g))
  | .finished element => .finished (element.relocate g)

theorem Progress.place_relocate (element : Element) (stack : List OpenGroup) :
    place (element.relocate g) (stack.map (OpenGroup.relocate g)) =
      (place element stack).relocate g := by
  cases stack <;> rfl

/-- What one token does to the open groups does not hang on where they stand. -/
theorem Progress.accept_relocate (limit : Option ℤ) (stack : List OpenGroup) (token : Token) :
    accept limit (stack.map (OpenGroup.relocate g)) (token.relocate g) =
      ((accept limit stack token).mapError (ParseError.relocate g offset)).map
        (Progress.relocate g) := by
  obtain ⟨lexeme, span⟩ := token
  cases lexeme with
  | comment text =>
    show Except.ok (place (Element.relocate g (.comment text span)) _) = _
    rw [place_relocate]
    rfl
  | atom value =>
    show Except.ok (place (Element.relocate g (.atom value span)) _) = _
    rw [place_relocate]
    rfl
  | opening shape =>
    cases limit with
    | none => rfl
    | some most =>
      by_cases hmost : most ≤ stack.length <;>
        simp [accept, open?, Token.relocate, hmost, Except.map, Except.mapError,
          ParseError.relocate, Progress.relocate, OpenGroup.relocate]
  | closing shape =>
    cases stack with
    | nil => rfl
    | cons top outer =>
      by_cases hshape : top.shape = shape
      · have hgroup : Element.relocate g
            (.group shape top.members.reverse (top.span.extend span)) =
              .group shape ((top.members.map (Element.relocate g)).reverse)
                ((top.span.relocate g).extend (span.relocate g)) := by
          simp [Element.relocate, Span.relocate, Span.extend]
        simp only [accept, close?, List.map_cons, OpenGroup.relocate, Token.relocate, hshape,
          if_true, ← hgroup]
        rw [place_relocate]
        rfl
      · simp [accept, close?, Token.relocate, OpenGroup.relocate, hshape, Except.map,
          Except.mapError, ParseError.relocate, Span.relocate, Span.extend]

end Relocate

/-- An answer of a reader, with its error and what it has read replaced. -/
def answerMap {ε α : Type} (onError : ε → ε) (onValue : α → α) :
    Except ε (Option α) → Except ε (Option α)
  | .error e => .error (onError e)
  | .ok value? => .ok (value?.map onValue)

namespace Cursor

section Rebase

variable (origin : Position) (offset : ℕ)

/-- The cursor in a text on its own, if that text starts at `origin` and behind `offset` bytes. -/
def rebase (cursor : Cursor) : Cursor :=
  { cursor with offset := offset + cursor.offset, position := origin.rebase cursor.position }

def rebaseToken : Except TokenError (Option Token) → Except TokenError (Option Token) :=
  answerMap (TokenError.relocate origin.rebase offset) (Token.relocate origin.rebase)

def rebaseElement : Except ParseError (Option Element) → Except ParseError (Option Element) :=
  answerMap (ParseError.relocate origin.rebase offset) (Element.relocate origin.rebase)

variable {cursor : Cursor}

theorem Passes.one_le_line {later : Cursor} {taken : Text} (h : cursor.Passes taken later)
    (hline : 1 ≤ cursor.position.line) : 1 ≤ later.position.line := by
  rw [h.position_eq]
  exact Position.one_le_line_advanceOver hline taken

theorem pass_rebase (h : 1 ≤ cursor.position.line) (taken rest : Text) :
    (cursor.rebase origin offset).pass taken rest =
      (cursor.pass taken rest).rebase origin offset := by
  simp [pass, rebase, Position.rebase_advanceOver origin h, Nat.add_assoc]

theorem skipBlanks_rebase (h : 1 ≤ cursor.position.line) :
    (cursor.rebase origin offset).skipBlanks = cursor.skipBlanks.rebase origin offset :=
  pass_rebase origin offset h _ _

theorem blocked?_rebase (cursor : Cursor) : (cursor.rebase origin offset).blocked? =
    cursor.blocked?.map (TokenError.relocate origin.rebase offset) := by
  obtain ⟨rest, fault, n, position⟩ := cursor
  cases rest <;> cases fault <;> rfl

theorem judge_rebase (start stop : Cursor) (found : Found) :
    judge (start.rebase origin offset) (stop.rebase origin offset) found =
      (judge start stop found).mapError (TokenError.relocate origin.rebase offset) := by
  cases found with
  | closed => rfl
  | brokenBytes => rfl
  | unknown => rfl
  | _ =>
    simp only [judge, blocked?_rebase]
    cases stop.blocked? <;> rfl

theorem read_rebase (f : Features) (h : 1 ≤ cursor.position.line) :
    (cursor.rebase origin offset).read f =
      Prod.map (rebaseToken origin offset) (rebase origin offset) (cursor.read f) := by
  have hskip := skipBlanks_rebase origin offset h
  have hline : 1 ≤ cursor.skipBlanks.position.line := Position.one_le_line_advanceOver h _
  cases hcs : cursor.skipBlanks.rest with
  | nil =>
    have hcs' : (cursor.rebase origin offset).skipBlanks.rest = [] := by
      rw [hskip]
      exact hcs
    rw [read_of_skipBlanks_nil hcs, read_of_skipBlanks_nil hcs', hskip, blocked?_rebase]
    cases cursor.skipBlanks.blocked? <;> rfl
  | cons c cs =>
    have hcs' : (cursor.rebase origin offset).skipBlanks.rest = c :: cs := by
      rw [hskip]
      exact hcs
    generalize hread : Reading.ofText f c cs = r
    rw [read_of_skipBlanks_cons hcs hread, read_of_skipBlanks_cons hcs' hread, hskip,
      pass_rebase origin offset hline, judge_rebase]
    cases judge cursor.skipBlanks (cursor.skipBlanks.pass r.taken r.rest) r.found <;> rfl

theorem next_rebase (f : Features) (h : 1 ≤ cursor.position.line) :
    (cursor.rebase origin offset).next f =
      Prod.map (rebaseToken origin offset) (rebase origin offset) (cursor.next f) := by
  have hread := read_rebase origin offset f h
  fun_induction next f cursor with
  | case1 cursor token later hnext hskip ih =>
    obtain ⟨taken, hpass⟩ := passes_of_read hnext
    have hline := hpass.one_le_line h
    rw [hnext] at hread
    rw [← ih hline (read_rebase origin offset f hline), next_eq, hread]
    simp [rebaseToken, answerMap, Token.relocate, hskip]
  | case2 cursor token later hnext hskip =>
    rw [hnext] at hread
    rw [next_eq, hread]
    simp [rebaseToken, answerMap, Token.relocate, hskip]
  | case3 cursor hno =>
    rw [next_eq, hread]
    generalize cursor.read f = r at hno
    obtain ⟨e | _ | token, later⟩ := r
    · rfl
    · rfl
    · exact absurd rfl (hno token later)

theorem tokens_rebase (f : Features) (h : 1 ≤ cursor.position.line) :
    (cursor.rebase origin offset).tokens f =
      ⟨(cursor.tokens f).tokens.map (Token.relocate origin.rebase),
        (cursor.tokens f).error.map (TokenError.relocate origin.rebase offset),
        (cursor.tokens f).stop.rebase origin offset⟩ := by
  have hnext := next_rebase origin offset f h
  rw [tokens_eq f (cursor.rebase origin offset)]
  fun_induction tokens f cursor with
  | case1 cursor e later heq =>
    rw [heq] at hnext
    rw [hnext]
    rfl
  | case2 cursor later heq =>
    rw [heq] at hnext
    rw [hnext]
    rfl
  | case3 cursor token later heq _ ih =>
    obtain ⟨taken, hpass⟩ := passes_of_next heq
    have hline := hpass.one_le_line h
    have hlater := ih hline (next_rebase origin offset f hline)
    rw [← tokens_eq] at hlater
    rw [heq] at hnext
    rw [hnext]
    simp only [Prod.map, rebaseToken, answerMap, Option.map_some, hlater]
    rfl

theorem assemble_rebase (f : Features) (limit : Option ℤ) (stack : List OpenGroup)
    (h : 1 ≤ cursor.position.line) :
    (cursor.rebase origin offset).assemble f limit (stack.map (OpenGroup.relocate origin.rebase)) =
      Prod.map (rebaseElement origin offset) (rebase origin offset)
        (cursor.assemble f limit stack) := by
  have hnext := next_rebase origin offset f h
  rw [Assembly.assemble_eq]
  fun_induction assemble f limit stack cursor with
  | case1 stack cursor e later heq =>
    rw [heq] at hnext
    rw [hnext]
    rfl
  | case2 cursor later heq =>
    rw [heq] at hnext
    rw [hnext]
    rfl
  | case3 cursor later heq top outer =>
    rw [heq] at hnext
    rw [hnext]
    rfl
  | case4 stack cursor token later heq e haccept =>
    rw [heq] at hnext
    rw [hnext]
    simp [rebaseToken, rebaseElement, answerMap, Progress.accept_relocate _ offset, haccept,
      Except.map, Except.mapError]
  | case5 stack cursor token later heq element haccept =>
    rw [heq] at hnext
    rw [hnext]
    simp [rebaseToken, rebaseElement, answerMap, Progress.accept_relocate _ offset, haccept,
      Except.map, Except.mapError, Progress.relocate]
  | case6 stack cursor token later heq inner haccept ih =>
    obtain ⟨taken, hpass⟩ := passes_of_next heq
    have hline := hpass.one_le_line h
    have hlater := ih hline (next_rebase origin offset f hline)
    rw [← Assembly.assemble_eq] at hlater
    rw [heq] at hnext
    rw [hnext]
    simp [rebaseToken, answerMap, Progress.accept_relocate _ offset, haccept, Except.map,
      Except.mapError, Progress.relocate, hlater]

theorem element_rebase (f : Features) (limit : Option ℤ) (h : 1 ≤ cursor.position.line) :
    (cursor.rebase origin offset).element f limit =
      Prod.map (rebaseElement origin offset) (rebase origin offset) (cursor.element f limit) :=
  assemble_rebase origin offset f limit [] h

theorem elements_eq (f : Features) (limit : Option ℤ) (cursor : Cursor) :
    cursor.elements f limit = match cursor.element f limit with
      | (.error e, later) => ⟨[], some e, later⟩
      | (.ok none, later) => ⟨[], none, later⟩
      | (.ok (some element), later) =>
        { later.elements f limit with
          elements := element :: (later.elements f limit).elements } := by
  rw [elements]
  split
  next h => rw [h]
  next h => rw [h]
  next h => rw [h]

theorem elements_rebase (f : Features) (limit : Option ℤ) (h : 1 ≤ cursor.position.line) :
    (cursor.rebase origin offset).elements f limit =
      ⟨(cursor.elements f limit).elements.map (Element.relocate origin.rebase),
        (cursor.elements f limit).error.map (ParseError.relocate origin.rebase offset),
        (cursor.elements f limit).stop.rebase origin offset⟩ := by
  have helement := element_rebase origin offset f limit h
  rw [elements_eq f limit (cursor.rebase origin offset)]
  fun_induction elements f limit cursor with
  | case1 cursor e later heq =>
    rw [heq] at helement
    rw [helement]
    rfl
  | case2 cursor later heq =>
    rw [heq] at helement
    rw [helement]
    rfl
  | case3 cursor element later heq _ ih =>
    obtain ⟨taken, hpass⟩ := passes_of_assemble heq
    have hline := hpass.one_le_line h
    have hlater := ih hline (element_rebase origin offset f limit hline)
    rw [← elements_eq] at hlater
    rw [heq] at helement
    rw [helement]
    simp only [Prod.map, rebaseElement, answerMap, Option.map_some, hlater]
    rfl

end Rebase
end Cursor

/-- What a reader answers to a request. -/
inductive Reply where
  | token (result : Except TokenError (Option Token))
  | element (result : Except ParseError (Option Element))

def Reply.rebase (origin : Position) (offset : ℕ) : Reply → Reply
  | .token result => .token (Cursor.rebaseToken origin offset result)
  | .element result => .element (Cursor.rebaseElement origin offset result)

namespace Cursor

section Replies

variable (f : Features) (limit : Option ℤ)

def reply (cursor : Cursor) : Request → Reply
  | .token => .token (cursor.next f).1
  | .element => .element (cursor.element f limit).1

/-- The answers to requests one after another, also after some of them have failed. -/
def replies (cursor : Cursor) : List Request → List Reply
  | [] => []
  | request :: requests =>
    cursor.reply f limit request :: (cursor.serve f limit request).replies requests

variable (origin : Position) (offset : ℕ) {cursor : Cursor}

theorem reply_rebase (h : 1 ≤ cursor.position.line) (request : Request) :
    (cursor.rebase origin offset).reply f limit request =
      (cursor.reply f limit request).rebase origin offset := by
  cases request with
  | token => simp only [reply, next_rebase origin offset f h, Prod.map_fst, Reply.rebase]
  | element => simp only [reply, element_rebase origin offset f limit h, Prod.map_fst, Reply.rebase]

theorem serve_rebase (h : 1 ≤ cursor.position.line) (request : Request) :
    (cursor.rebase origin offset).serve f limit request =
      (cursor.serve f limit request).rebase origin offset := by
  cases request with
  | token => simp only [serve, next_rebase origin offset f h, Prod.map_snd]
  | element => simp only [serve, element_rebase origin offset f limit h, Prod.map_snd]

theorem replies_rebase (h : 1 ≤ cursor.position.line) (requests : List Request) :
    (cursor.rebase origin offset).replies f limit requests =
        (cursor.replies f limit requests).map (Reply.rebase origin offset) ∧
      (cursor.rebase origin offset).serveAll f limit requests =
        (cursor.serveAll f limit requests).rebase origin offset := by
  induction requests generalizing cursor with
  | nil => exact ⟨rfl, rfl⟩
  | cons request requests ih =>
    obtain ⟨taken, hpass⟩ := passes_serve f limit cursor request
    obtain ⟨hreplies, hstop⟩ := ih (hpass.one_le_line h)
    constructor
    · rw [replies, replies, reply_rebase f limit origin offset h,
        serve_rebase f limit origin offset h, hreplies, List.map_cons]
    · simp only [serveAll, List.foldl_cons, serve_rebase f limit origin offset h] at hstop ⊢
      exact hstop

end Replies

/-- A cursor between characters of the bytes is a fresh one on what is left of them, moved. -/
theorem StandsBehind.eq_rebase {bytes : Bytes} {done : Text} {cursor : Cursor}
    (h : StandsBehind bytes done cursor) :
    cursor = (ofBytes (bytes.drop cursor.offset)).rebase cursor.position cursor.offset := by
  simp [ofBytes, rebase, h.decode_drop]

end Cursor

/-- Whatever was asked of a reader before, also with errors, it goes on as a fresh reader of the
bytes that are left does, from the place and the offset that it has come to. -/
theorem Source.replies_eq_restarted (source : Source) (f : Features) (limit : Option ℤ)
    (requests more : List Request) :
    let cursor := source.cursor.serveAll f limit requests
    let fresh := (Source.ofBytes (source.bytes.drop cursor.offset)).cursor
    cursor.replies f limit more =
        (fresh.replies f limit more).map (Reply.rebase cursor.position cursor.offset) ∧
      cursor.serveAll f limit more =
        (fresh.serveAll f limit more).rebase cursor.position cursor.offset := by
  intro cursor fresh
  obtain ⟨done, hdone⟩ := Cursor.passes_serveAll f limit source.cursor requests
  have hcursor : cursor = fresh.rebase cursor.position cursor.offset := hdone.standsBehind.eq_rebase
  have hline : 1 ≤ fresh.position.line := le_rfl
  have hreplies := Cursor.replies_rebase f limit cursor.position cursor.offset hline more
  rwa [← hcursor] at hreplies

end SExpression
