import SExpression.Proofs.Interleaving

/-! How the spans of elements lie: members of a group come one after another between its
delimiters, and the elements that are read in any run come one after another. -/
namespace SExpression

/-- The spans of the tokens are proper, and each starts where those before it have ended. -/
structure Token.InOrder (tokens : List Token) : Prop where
  proper : ∀ token ∈ tokens, token.span.start < token.span.stop
  ordered : tokens.Pairwise fun a b => a.span.stop ≤ b.span.start

theorem Token.InOrder.sublist {tokens part : List Token} (h : InOrder tokens)
    (hpart : part.Sublist tokens) : InOrder part :=
  ⟨fun token htoken => h.proper token (hpart.subset htoken), h.ordered.sublist hpart⟩

namespace Element

/-- The span of the element is proper, and so are those of its members, at any depth, which lie one
after another between the delimiters. -/
inductive Nested : Element → Prop
  | atom {value : Atom} {span : Span} (h : span.start < span.stop) : Nested (.atom value span)
  | comment {text : Text} {span : Span} (h : span.start < span.stop) : Nested (.comment text span)
  | group {shape : Shape} {members : List Element} {span : Span} (h : span.start < span.stop)
      (hfirst : ∀ e ∈ members, span.first.stop ≤ e.span.start)
      (hlast : ∀ e ∈ members, e.span.stop ≤ span.last.start)
      (hordered : members.Pairwise fun a b => a.span.stop ≤ b.span.start)
      (hmembers : ∀ e ∈ members, Nested e) : Nested (.group shape members span)

theorem exists_mem_tokens_start (e : Element) :
    ∃ token ∈ e.tokens, token.span.start = e.span.start := by
  obtain ⟨token, tokens, htokens, hstart⟩ := e.exists_tokens_eq_cons
  exact ⟨token, by simp [htokens], hstart⟩

theorem exists_mem_tokens_stop (e : Element) :
    ∃ token ∈ e.tokens, token.span.stop = e.span.stop := by
  obtain ⟨value, span⟩ | ⟨text, span⟩ | ⟨shape, members, span⟩ := e
  · exact ⟨_, List.mem_singleton_self _, rfl⟩
  · exact ⟨_, List.mem_singleton_self _, rfl⟩
  · exact ⟨⟨.closing shape, span.last⟩, by simp [tokens], rfl⟩

/-- In a group whose tokens come in order, those of its members come between the delimiters. -/
theorem between_of_inOrder {shape : Shape} {members : List Element} {span : Span}
    (h : Token.InOrder (tokens (.group shape members span))) :
    span.start < span.stop ∧ Token.InOrder (members.flatMap tokens) ∧
      ∀ token ∈ members.flatMap tokens,
        span.first.stop ≤ token.span.start ∧ token.span.stop ≤ span.last.start := by
  rw [tokens, tokensOf_eq_flatMap] at h
  obtain ⟨hopening, hrest⟩ := List.pairwise_cons.mp h.ordered
  obtain ⟨-, -, hclosing⟩ := List.pairwise_append.mp hrest
  have hstart : span.start < span.first.stop := h.proper _ List.mem_cons_self
  have hstop : span.last.start < span.stop := h.proper ⟨.closing shape, span.last⟩ (by simp)
  have hinner : span.first.stop ≤ span.last.start := hopening ⟨.closing shape, span.last⟩ (by simp)
  refine ⟨hstart.trans_le (hinner.trans hstop.le), ?_, ?_⟩
  · apply h.sublist
    exact (List.sublist_append_left _ _).trans (List.sublist_cons_self _ _)
  · intro token htoken
    exact ⟨hopening token (List.mem_append_left _ htoken),
      hclosing token htoken _ (List.mem_singleton_self _)⟩

/-- An element whose tokens come in order is nested. -/
theorem nested_of_inOrder (e : Element) : Token.InOrder e.tokens → e.Nested := by
  induction e using Element.induction with
  | atom value span =>
    intro h
    exact .atom (h.proper _ (List.mem_singleton_self _))
  | comment text span =>
    intro h
    exact .comment (h.proper _ (List.mem_singleton_self _))
  | group shape members span ih =>
    intro h
    obtain ⟨hspan, hinner, hbetween⟩ := between_of_inOrder h
    refine .group hspan ?_ ?_ ?_ ?_
    · intro e he
      obtain ⟨token, htoken, hstart⟩ := e.exists_mem_tokens_start
      rw [← hstart]
      exact (hbetween token (List.mem_flatMap.mpr ⟨e, he, htoken⟩)).1
    · intro e he
      obtain ⟨token, htoken, hstop⟩ := e.exists_mem_tokens_stop
      rw [← hstop]
      exact (hbetween token (List.mem_flatMap.mpr ⟨e, he, htoken⟩)).2
    · refine (List.pairwise_flatMap.mp hinner.ordered).2.imp ?_
      intro a b hab
      obtain ⟨last, hlast, hstop⟩ := a.exists_mem_tokens_stop
      obtain ⟨first, hfirst, hstart⟩ := b.exists_mem_tokens_start
      rw [← hstop, ← hstart]
      exact hab last hlast first hfirst
    · intro e he
      apply ih e he
      apply hinner.sublist
      rw [List.flatMap_def]
      exact List.sublist_flatten_of_mem (List.mem_map_of_mem he)

end Element

namespace Cursor

variable {f : Features} {cursor later : Cursor} {tokens : List Token}

theorem Step.start_lt_stop {token : Token} (h : Step f cursor token later) :
    token.span.start < token.span.stop := by
  obtain @⟨blanks, spelling, rest, lexeme, -, -, hspells, -, -⟩ := h
  rw [Position.advanceOver_append]
  exact Position.lt_advanceOver _ hspells.ne_nil

theorem inOrder_tokens (f : Features) (cursor : Cursor) :
    Token.InOrder (cursor.tokens f).tokens where
  proper token htoken := by
    obtain ⟨-, middle, later, -, hstep⟩ := step_of_mem_tokens token htoken
    exact hstep.start_lt_stop
  ordered := pairwise_tokens

theorem Reads.position_eq (h : Reads f cursor tokens later) :
    later.position = Token.behind cursor.position tokens := by
  induction h with
  | nothing cursor => rfl
  | token hnext _ ih =>
    obtain ⟨-, gap, -, -, hspan⟩ := skipped_of_next_some hnext
    rw [ih, Token.behind_cons, hspan]

theorem Passes.position_le {taken : Text} (h : cursor.Passes taken later) :
    cursor.position ≤ later.position := by
  rw [h.position_eq]
  exact Position.le_advanceOver _ taken

/-- An element lies between where reading it starts and where it ends. -/
theorem Reads.nested {e : Element} (h : Reads f cursor e.tokens later) :
    e.Nested ∧ cursor.position ≤ e.span.start ∧ e.span.stop = later.position := by
  have htokens : (cursor.tokens f).tokens = e.tokens ++ (later.tokens f).tokens := by
    rw [h.tokens_eq]
  refine ⟨?_, ?_, ?_⟩
  · apply e.nested_of_inOrder
    apply (inOrder_tokens f cursor).sublist
    rw [htokens]
    exact List.sublist_append_left _ _
  · obtain ⟨token, htoken, hstart⟩ := e.exists_mem_tokens_start
    rw [← hstart]
    apply start_le_of_mem_tokens (f := f)
    rw [htokens]
    exact List.mem_append_left _ htoken
  · rw [h.position_eq, e.behind_tokens]

end Cursor

/-- The element that an answer gives. -/
def Reply.element? : Reply → Option Element
  | .element (.ok (some e)) => some e
  | _ => none

namespace Cursor

variable {f : Features} {limit : Option ℤ} {cursor : Cursor}

theorem reads_of_element? {request : Request} {e : Element}
    (h : (cursor.reply f limit request).element? = some e) :
    Reads f cursor e.tokens (cursor.serve f limit request) := by
  cases request with
  | token => cases h
  | element =>
    rcases helement : cursor.element f limit with ⟨_ | _ | d, later⟩
    · simp [reply, helement, Reply.element?] at h
    · simp [reply, helement, Reply.element?] at h
    · obtain rfl : d = e := by simpa [reply, helement, Reply.element?] using h
      rw [serve, helement]
      exact reads_of_element helement

/-- The elements that requests are answered with, whatever else is asked for or fails. -/
def elementsAnswered (f : Features) (limit : Option ℤ) (cursor : Cursor)
    (requests : List Request) : List Element :=
  (cursor.replies f limit requests).filterMap Reply.element?

theorem elementsAnswered_cons (request : Request) (requests : List Request) :
    cursor.elementsAnswered f limit (request :: requests) =
      (cursor.reply f limit request).element?.toList ++
        (cursor.serve f limit request).elementsAnswered f limit requests := by
  unfold elementsAnswered
  rw [replies, List.filterMap_cons]
  cases (cursor.reply f limit request).element? <;> rfl

/-- No request goes back in the text, so that each element lies behind those before it. -/
theorem nested_elementsAnswered (f : Features) (limit : Option ℤ) (cursor : Cursor)
    (requests : List Request) :
    (∀ e ∈ cursor.elementsAnswered f limit requests,
        e.Nested ∧ cursor.position ≤ e.span.start) ∧
      (cursor.elementsAnswered f limit requests).Pairwise
        fun a b => a.span.stop ≤ b.span.start := by
  induction requests generalizing cursor with
  | nil => exact ⟨fun e he => absurd he List.not_mem_nil, .nil⟩
  | cons request requests ih =>
    obtain ⟨hmore, hordered⟩ := ih (cursor.serve f limit request)
    obtain ⟨taken, hpass⟩ := passes_serve f limit cursor request
    have hbehind : ∀ e ∈ (cursor.serve f limit request).elementsAnswered f limit requests,
        e.Nested ∧ cursor.position ≤ e.span.start := by
      intro e he
      exact ⟨(hmore e he).1, hpass.position_le.trans (hmore e he).2⟩
    rw [elementsAnswered_cons]
    rcases helement : (cursor.reply f limit request).element? with _ | first
    · exact ⟨hbehind, hordered⟩
    · obtain ⟨hnested, hstart, hstop⟩ := (reads_of_element? helement).nested
      constructor
      · intro e he
        rcases List.mem_cons.mp he with rfl | he
        · exact ⟨hnested, hstart⟩
        · exact hbehind e he
      · refine List.pairwise_cons.mpr ⟨?_, hordered⟩
        intro e he
        rw [hstop]
        exact (hmore e he).2

end Cursor

namespace Source

/-- Whatever is asked of a reader, and also after errors, the elements that it answers with are
nested, and each of them starts where those before it have ended. -/
theorem spans_nest (source : Source) (f : Features) (limit : Option ℤ) (requests : List Request) :
    (∀ e ∈ source.cursor.elementsAnswered f limit requests, e.Nested) ∧
      (source.cursor.elementsAnswered f limit requests).Pairwise
        fun a b => a.span.stop ≤ b.span.start := by
  obtain ⟨hnested, hordered⟩ := Cursor.nested_elementsAnswered f limit source.cursor requests
  exact ⟨fun e he => (hnested e he).1, hordered⟩

example : ((ofText ") (a\n b) 1").cursor.elementsAnswered {} none
    [.element, .element, .token, .element]).map Element.span = [⟨⟨1, 2⟩, ⟨2, 3⟩⟩] := by
  decide +kernel

end Source
end SExpression
