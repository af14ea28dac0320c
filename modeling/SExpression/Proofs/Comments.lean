import SExpression.Proofs.Assembly

/-! Comments make no difference to anything else. A source is read with and without them as tokens
to the same other tokens, the same elements but for the comments in them, and the same error. -/
namespace SExpression

namespace Features

def commented (f : Features) : Features :=
  { f with comments := true }

def uncommented (f : Features) : Features :=
  { f with comments := false }

end Features

namespace Element

mutual

/-- The element without the comments that stand in it; nothing is left of a comment. -/
def uncommented? : Element → Option Element
  | .atom value span => some (.atom value span)
  | .comment _ _ => none
  | .group shape members span => some (.group shape (uncommentedAll members) span)

def uncommentedAll : List Element → List Element
  | [] => []
  | e :: es => (uncommented? e).toList ++ uncommentedAll es

end

@[simp] theorem uncommentedAll_eq_filterMap (es : List Element) :
    uncommentedAll es = es.filterMap uncommented? := by
  induction es with
  | nil => rfl
  | cons e es ih =>
    rw [uncommentedAll, ih, List.filterMap_cons]
    cases uncommented? e <;> rfl

end Element

def OpenGroup.uncommented (g : OpenGroup) : OpenGroup :=
  { g with members := g.members.filterMap Element.uncommented? }

namespace Assembly

variable {limit : Option Int} {a b : Assembly} {token : Token}

def uncommented (a : Assembly) : Assembly :=
  ⟨a.finished.filterMap Element.uncommented?, a.stack.map OpenGroup.uncommented⟩

theorem uncommented_place_of_some {e d : Element} (h : e.uncommented? = some d) (a : Assembly) :
    (a.place e).uncommented = a.uncommented.place d := by
  obtain ⟨finished, stack⟩ := a
  cases stack <;> simp [uncommented, OpenGroup.uncommented, h]

theorem uncommented_place_of_none {e : Element} (h : e.uncommented? = none) (a : Assembly) :
    (a.place e).uncommented = a.uncommented := by
  obtain ⟨finished, stack⟩ := a
  cases stack <;> simp [uncommented, OpenGroup.uncommented, h]

/-- A comment goes nowhere but among the elements. -/
theorem Moves.uncommented_eq (h : Moves limit a token b) (htoken : token.lexeme.isComment) :
    b.uncommented = a.uncommented := by
  cases h with
  | comment => exact uncommented_place_of_none rfl a
  | atom => cases htoken
  | opening => cases htoken
  | closing => cases htoken

theorem Moves.uncommented (h : Moves limit a token b) (htoken : ¬ token.lexeme.isComment) :
    Moves limit a.uncommented token b.uncommented := by
  cases h with
  | comment => exact absurd rfl htoken
  | atom =>
    rw [uncommented_place_of_some rfl]
    exact .atom
  | opening hlimit => exact .opening (by simpa [Assembly.uncommented] using hlimit)
  | @closing top outer shape span hstack hshape =>
    have hstack' : a.uncommented.stack = top.uncommented :: outer.map OpenGroup.uncommented := by
      rw [Assembly.uncommented, hstack, List.map_cons]
    have hgroup : (Element.group shape top.members.reverse (top.span.extend span)).uncommented? =
        some (.group shape top.uncommented.members.reverse (top.span.extend span)) := by
      simp [Element.uncommented?, OpenGroup.uncommented]
    rw [uncommented_place_of_some hgroup]
    exact .closing hstack' hshape

theorem Breaks.uncommented {e : ParseError} (h : Breaks limit a token e) :
    Breaks limit a.uncommented token e := by
  cases h with
  | unopened hstack => exact .unopened (by simp [Assembly.uncommented, hstack])
  | @mismatched top outer shape span hstack hshape =>
    have hstack' : a.uncommented.stack = top.uncommented :: outer.map OpenGroup.uncommented := by
      rw [Assembly.uncommented, hstack, List.map_cons]
    show Breaks limit a.uncommented _
      (.mismatched top.uncommented.shape shape (top.uncommented.span.extend span))
    exact .mismatched hstack' hshape
  | tooDeep hlimit hmost =>
    exact .tooDeep hlimit (by simpa [Assembly.uncommented] using hmost)

theorem Breaks.not_isComment {e : ParseError} (h : Breaks limit a token e) :
    ¬ token.lexeme.isComment := by
  cases h <;> simp [Lexeme.isComment]

theorem unclosed?_uncommented (a : Assembly) : a.uncommented.unclosed? = a.unclosed? := by
  obtain ⟨finished, stack⟩ := a
  cases stack <;> rfl

end Assembly

namespace Cursor

variable {f : Features} {cursor later : Cursor} {token : Token}

/-- Where a comment would come next, reading goes on behind it. -/
theorem next_uncommented_of_comment (h : cursor.next f.commented = (.ok (some token), later))
    (htoken : token.lexeme.isComment) : cursor.next f.uncommented = later.next f.uncommented := by
  rw [next_eq_read rfl] at h
  have hread : cursor.read f.uncommented = (.ok (some token), later) := h
  apply next_of_not_keeps hread
  simp [Keeps, htoken, Features.uncommented]

/-- Whatever else comes next does so too where comments are skipped. -/
theorem next_uncommented_of_other {result : Except TokenError (Option Token)}
    (h : cursor.next f.commented = (result, later))
    (hresult : ∀ token, result = .ok (some token) → ¬ token.lexeme.isComment) :
    cursor.next f.uncommented = (result, later) := by
  rw [next_eq_read rfl] at h
  have hread : cursor.read f.uncommented = (result, later) := h
  obtain e | _ | token := result
  · rw [next_eq, hread]
  · rw [next_eq, hread]
  · exact next_of_read hread fun hcomment => absurd hcomment (hresult token rfl)

/-- The tokens without comments are those with comments, less the comments. -/
theorem tokens_uncommented (f : Features) (cursor : Cursor) :
    cursor.tokens f.uncommented = { cursor.tokens f.commented with
      tokens := (cursor.tokens f.commented).tokens.filter fun t => !t.lexeme.isComment } := by
  fun_induction tokens f.commented cursor with
  | case1 cursor e later hnext =>
    rw [tokens_eq, next_uncommented_of_other hnext (by simp)]
    rfl
  | case2 cursor later hnext =>
    rw [tokens_eq, next_uncommented_of_other hnext (by simp)]
    rfl
  | case3 cursor token later hnext more =>
    rename_i ih
    by_cases htoken : token.lexeme.isComment
    · rw [tokens_eq, next_uncommented_of_comment hnext htoken, ← tokens_eq, ih]
      simp [htoken, more]
    · rw [tokens_eq, next_uncommented_of_other hnext (by simpa using htoken)]
      simp [htoken, more, ih]

end Cursor

namespace Assembly

/-- What is put together of a source without comments is what is put together of it with them, less
the comments, wherever it starts. -/
theorem resume_uncommented (f : Features) (limit : Option Int) (a : Assembly) (cursor : Cursor) :
    resume f.uncommented limit a.uncommented cursor =
      { resume f.commented limit a cursor with
        elements :=
          (resume f.commented limit a cursor).elements.filterMap Element.uncommented? } := by
  fun_induction Cursor.tokens f.commented cursor generalizing a with
  | case1 cursor e later hnext =>
    rw [resume_of_error hnext, resume_of_error (Cursor.next_uncommented_of_other hnext (by simp))]
    rfl
  | case2 cursor later hnext =>
    rw [resume_of_none hnext, resume_of_none (Cursor.next_uncommented_of_other hnext (by simp)),
      unclosed?_uncommented]
    rfl
  | case3 cursor token later hnext more =>
    rename_i ih
    rcases moves_or_breaks limit a token with ⟨b, hmoves⟩ | ⟨e, hbreaks⟩
    · rw [resume_of_moves hnext hmoves, ← ih b]
      by_cases htoken : token.lexeme.isComment
      · rw [hmoves.uncommented_eq htoken]
        exact resume_congr (Cursor.next_uncommented_of_comment hnext htoken) limit _
      · have hnext' := Cursor.next_uncommented_of_other hnext (by simpa using htoken)
        exact resume_of_moves hnext' (hmoves.uncommented htoken)
    · have htoken := hbreaks.not_isComment
      have hnext' := Cursor.next_uncommented_of_other hnext (by simpa using htoken)
      rw [resume_of_breaks hnext hbreaks, resume_of_breaks hnext' hbreaks.uncommented]
      rfl

end Assembly

theorem Cursor.elements_uncommented (f : Features) (limit : Option Int) (cursor : Cursor) :
    cursor.elements f.uncommented limit = { cursor.elements f.commented limit with
      elements := (cursor.elements f.commented limit).elements.filterMap
        Element.uncommented? } := by
  rw [Source.elements_eq_resume, Source.elements_eq_resume]
  exact Assembly.resume_uncommented f limit {} cursor

namespace Source

/-- Comments are either tokens or skipped, and all else stays the same: the other tokens and where
they end, and for every limit the elements but for the comments in them, and the error. -/
theorem read_uncommented (f : Features) (source : Source) :
    (source.cursor.tokens f.uncommented = { source.cursor.tokens f.commented with
      tokens := (source.cursor.tokens f.commented).tokens.filter fun t => !t.lexeme.isComment }) ∧
    source.tokenize f.uncommented =
      (source.tokenize f.commented).map (List.filter fun t => !t.lexeme.isComment) ∧
    ∀ limit,
      (source.cursor.elements f.uncommented limit = { source.cursor.elements f.commented limit with
        elements := (source.cursor.elements f.commented limit).elements.filterMap
          Element.uncommented? }) ∧
      source.parse f.uncommented limit =
        (source.parse f.commented limit).map (List.filterMap Element.uncommented?) := by
  have htokens := Cursor.tokens_uncommented f source.cursor
  have helements (limit : Option Int) := Cursor.elements_uncommented f limit source.cursor
  refine ⟨htokens, ?_, fun limit => ⟨helements limit, ?_⟩⟩
  · rw [tokenize, tokenize, htokens]
    obtain ⟨tokens, error, stop⟩ := source.cursor.tokens f.commented
    cases error <;> rfl
  · rw [parse, parse, helements limit]
    obtain ⟨elements, error, stop⟩ := source.cursor.elements f.commented limit
    cases error <;> rfl

end Source
end SExpression
