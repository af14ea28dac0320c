import SExpression.Proofs.Excerpts

/-! Tokens and elements may be asked for in any order. What the answers are made of is the tokens
of the source, from the first of them on, with none left out and none given twice. -/
namespace SExpression

theorem Progress.place_ne_unfinished_nil (e : Element) (stack : List OpenGroup) :
    place e stack ≠ .unfinished [] := by
  cases stack <;> simp [place]

/-- A token that leaves no group open has finished an element. -/
theorem Progress.accept_ne_unfinished_nil (limit : Option ℤ) (stack : List OpenGroup)
    (token : Token) : accept limit stack token ≠ .ok (.unfinished []) := by
  obtain ⟨lexeme, span⟩ := token
  cases lexeme with
  | comment => simp [accept, place_ne_unfinished_nil]
  | atom => simp [accept, place_ne_unfinished_nil]
  | opening shape =>
    simp only [accept, open?]
    repeat' split
    all_goals simp
  | closing shape =>
    cases stack with
    | nil => simp [accept, close?]
    | cons top outer =>
      simp only [accept, close?]
      split <;> simp [place_ne_unfinished_nil]

namespace Cursor

/-- The later cursor stands behind the tokens, which come next. -/
inductive Reads (f : Features) : Cursor → List Token → Cursor → Prop
  | nothing (cursor : Cursor) : Reads f cursor [] cursor
  | token {cursor middle later : Cursor} {token : Token} {tokens : List Token}
      (h : cursor.next f = (.ok (some token), middle)) (hmore : Reads f middle tokens later) :
      Reads f cursor (token :: tokens) later

variable {f : Features} {limit : Option ℤ} {cursor later : Cursor} {stack : List OpenGroup}
  {element : Element} {tokens : List Token}

theorem Reads.tokens_eq (h : Reads f cursor tokens later) : cursor.tokens f =
    { later.tokens f with tokens := tokens ++ (later.tokens f).tokens } := by
  induction h with
  | nothing cursor => rfl
  | token h _ ih =>
    rw [Cursor.tokens_eq, h]
    simp only [ih, List.cons_append]

theorem Reads.narrow (h : Reads f cursor tokens later) : ∀ t ∈ tokens, t.Narrow := by
  have hnarrow : ∀ t ∈ (cursor.tokens f).tokens, t.Narrow := narrow_of_mem_tokens
  rw [h.tokens_eq] at hnarrow
  intro t ht
  exact hnarrow t (List.mem_append_left _ ht)

/-- An element is put together, on top of the groups that are open, from the tokens read for it. -/
theorem reads_of_assemble (h : cursor.assemble f limit stack = (.ok (some element), later)) :
    ∃ tokens, Reads f cursor tokens later ∧
      (⟨[], stack⟩ : Assembly).run limit tokens = .ok ⟨[element], []⟩ := by
  fun_induction assemble f limit stack cursor with
  | case1 => cases h
  | case2 => cases h
  | case3 => cases h
  | case4 => cases h
  | case5 stack cursor token middle hnext found haccept =>
    cases h
    have hstep : (⟨[], stack⟩ : Assembly).step limit token = .ok ⟨[element], []⟩ := by
      rw [Assembly.step, haccept]
      rfl
    refine ⟨[token], .token hnext (.nothing _), ?_⟩
    exact Assembly.run_cons_of_moves (Assembly.step_eq_ok_iff.mp hstep) []
  | case6 stack cursor token middle hnext stack' haccept ih =>
    obtain ⟨tokens, hreads, hrun⟩ := ih h
    have hstep : (⟨[], stack⟩ : Assembly).step limit token = .ok ⟨[], stack'⟩ := by
      rw [Assembly.step, haccept]
      rfl
    refine ⟨token :: tokens, .token hnext hreads, ?_⟩
    rw [Assembly.run_cons_of_moves (Assembly.step_eq_ok_iff.mp hstep), hrun]

/-- The tokens that are read for an element are those that it is made of. -/
theorem reads_of_element (h : cursor.element f limit = (.ok (some element), later)) :
    Reads f cursor element.tokens later := by
  obtain ⟨tokens, hreads, hrun⟩ := reads_of_assemble h
  have htokens := Assembly.tokens_of_run hrun hreads.narrow
  rw [← htokens] at hreads
  simpa [Assembly.tokens, Element.tokensOf] using hreads

/-- No element is left only where no token is. -/
theorem next_of_assemble_none (h : cursor.assemble f limit stack = (.ok none, later)) :
    stack = [] ∧ cursor.next f = (.ok none, later) := by
  fun_induction assemble f limit stack cursor with
  | case1 => cases h
  | case2 cursor middle hnext =>
    cases h
    exact ⟨rfl, hnext⟩
  | case3 => cases h
  | case4 => cases h
  | case5 => cases h
  | case6 stack cursor token middle hnext stack' haccept ih =>
    obtain ⟨rfl, -⟩ := ih h
    exact absurd haccept (Progress.accept_ne_unfinished_nil limit stack token)

theorem next_of_next_none (h : cursor.next f = (.ok none, later)) :
    later.next f = (.ok none, later) := by
  obtain ⟨hrest, hfault⟩ := rest_of_next_none h
  obtain ⟨rest, fault, offset, position⟩ := later
  obtain rfl : rest = [] := hrest
  exact next_of_rest_nil rfl hfault

end Cursor

namespace Reply

def failed : Reply → Bool
  | .token (.error _) => true
  | .element (.error _) => true
  | _ => false

/-- Whether nothing was left in the source. -/
def isEnd : Reply → Bool
  | .token (.ok none) => true
  | .element (.ok none) => true
  | _ => false

/-- The tokens that the answer is made of. -/
def tokens : Reply → List Token
  | .token (.ok (some t)) => [t]
  | .element (.ok (some e)) => e.tokens
  | _ => []

theorem tokens_of_isEnd {reply : Reply} (h : reply.isEnd) : reply.tokens = [] := by
  unfold isEnd at h
  split at h
  · rfl
  · rfl
  · cases h

end Reply

namespace Cursor

section Replies

variable {f : Features} {limit : Option ℤ} {cursor : Cursor}

theorem next_of_isEnd {request : Request} (h : (cursor.reply f limit request).isEnd) :
    cursor.next f = (.ok none, cursor.serve f limit request) := by
  cases request with
  | token =>
    rcases hnext : cursor.next f with ⟨e | _ | token, later⟩ <;>
      simp_all [reply, serve, Reply.isEnd]
  | element =>
    rcases helement : cursor.element f limit with ⟨e | _ | element, later⟩
    · simp [reply, helement, Reply.isEnd] at h
    · rw [serve, helement]
      exact (next_of_assemble_none helement).2
    · simp [reply, helement, Reply.isEnd] at h

/-- An answer gives the tokens that come next, unless the source is at its end. -/
theorem reads_of_reply {request : Request} (h : ¬ (cursor.reply f limit request).failed)
    (hend : ¬ (cursor.reply f limit request).isEnd) :
    Reads f cursor (cursor.reply f limit request).tokens (cursor.serve f limit request) := by
  cases request with
  | token =>
    rcases hnext : cursor.next f with ⟨e | _ | token, later⟩
    · simp [reply, hnext, Reply.failed] at h
    · simp [reply, hnext, Reply.isEnd] at hend
    · simp only [reply, serve, hnext, Reply.tokens]
      exact .token hnext (.nothing later)
  | element =>
    rcases helement : cursor.element f limit with ⟨e | _ | element, later⟩
    · simp [reply, helement, Reply.failed] at h
    · simp [reply, helement, Reply.isEnd] at hend
    · simp only [reply, serve, helement, Reply.tokens]
      exact reads_of_element helement

theorem tokens_eq_of_reply {request : Request} (h : ¬ (cursor.reply f limit request).failed) :
    cursor.tokens f = { (cursor.serve f limit request).tokens f with
      tokens := (cursor.reply f limit request).tokens ++
        ((cursor.serve f limit request).tokens f).tokens } := by
  by_cases hend : (cursor.reply f limit request).isEnd
  · have hnext := next_of_isEnd hend
    rw [Reply.tokens_of_isEnd hend, tokens_eq f cursor, hnext, tokens_eq f (serve _ _ _ _),
      next_of_next_none hnext]
    rfl
  · exact (reads_of_reply h hend).tokens_eq

/-- Requests that are answered leave the tokens that come behind their answers. -/
theorem tokens_eq_of_replies {requests : List Request}
    (h : ∀ reply ∈ cursor.replies f limit requests, ¬ reply.failed) :
    cursor.tokens f = { (cursor.serveAll f limit requests).tokens f with
      tokens := (cursor.replies f limit requests).flatMap Reply.tokens ++
        ((cursor.serveAll f limit requests).tokens f).tokens } := by
  induction requests generalizing cursor with
  | nil => rfl
  | cons request requests ih =>
    have hfirst := tokens_eq_of_reply (h _ List.mem_cons_self)
    have hmore := ih fun reply hreply => h reply (List.mem_cons_of_mem _ hreply)
    rw [hfirst, hmore]
    simp [replies, serveAll]

/-- Once the source is at its end, it stays there. -/
theorem ended_of_replies {requests : List Request}
    (h : ∃ reply ∈ cursor.replies f limit requests, reply.isEnd) :
    (cursor.serveAll f limit requests).rest = [] ∧
      (cursor.serveAll f limit requests).fault = none := by
  induction requests generalizing cursor with
  | nil => simp [replies] at h
  | cons request requests ih =>
    obtain ⟨reply, hreply, hend⟩ := h
    rcases List.mem_cons.mp hreply with rfl | hreply
    · obtain ⟨hrest, hfault⟩ := rest_of_next_none (next_of_isEnd hend)
      obtain ⟨taken, hpass⟩ := passes_serveAll f limit (cursor.serve f limit request) requests
      obtain ⟨-, hnil⟩ := List.append_eq_nil_iff.mp (hpass.1.symm.trans hrest)
      exact ⟨hnil, hpass.fault_eq.trans hfault⟩
    · exact ih ⟨reply, hreply, hend⟩

end Replies
end Cursor

namespace Source

/-- However tokens and elements are asked for in turn, the answers are made of the tokens of the
source from the first of them on, and of all its tokens once it was at its end. -/
theorem flatMap_tokens_replies {source : Source} {f : Features} {limit : Option ℤ}
    {requests : List Request}
    (h : ∀ reply ∈ source.cursor.replies f limit requests, ¬ reply.failed) :
    (source.cursor.replies f limit requests).flatMap Reply.tokens <+:
        (source.cursor.tokens f).tokens ∧
      ((∃ reply ∈ source.cursor.replies f limit requests, reply.isEnd) →
        source.tokenize f =
          .ok ((source.cursor.replies f limit requests).flatMap Reply.tokens)) := by
  have htokens := Cursor.tokens_eq_of_replies h
  constructor
  · rw [htokens]
    exact List.prefix_append _ _
  · intro hend
    obtain ⟨hrest, hfault⟩ := Cursor.ended_of_replies hend
    have hstop := Cursor.next_of_rest_nil (f := f) hrest hfault
    rw [tokenize_eq_ok_iff, htokens, Cursor.tokens_eq, hstop]
    simp

/-- The elements are read in a group whose delimiters are read as tokens, so that a limit of one
does for the group among them. -/
theorem flatMap_tokens_replies_in_group :
    (ofText "(a [1
])").tokenize {} = .ok [⟨.opening .round, ⟨⟨1, 0⟩, ⟨1, 1⟩⟩⟩,
      ⟨.atom (.identifier "a"), ⟨⟨1, 1⟩, ⟨1, 2⟩⟩⟩, ⟨.opening .square, ⟨⟨1, 3⟩, ⟨1, 4⟩⟩⟩,
      ⟨.atom (.integer .decimal "1"), ⟨⟨1, 4⟩, ⟨1, 5⟩⟩⟩, ⟨.closing .square, ⟨⟨2, 0⟩, ⟨2, 1⟩⟩⟩,
      ⟨.closing .round, ⟨⟨2, 1⟩, ⟨2, 2⟩⟩⟩] := by
  have htokens : ((ofText "(a [1
])").cursor.replies {} (some 1)
      [.token, .element, .element, .token, .element]).flatMap Reply.tokens =
        [⟨.opening .round, ⟨⟨1, 0⟩, ⟨1, 1⟩⟩⟩, ⟨.atom (.identifier "a"), ⟨⟨1, 1⟩, ⟨1, 2⟩⟩⟩,
          ⟨.opening .square, ⟨⟨1, 3⟩, ⟨1, 4⟩⟩⟩, ⟨.atom (.integer .decimal "1"), ⟨⟨1, 4⟩, ⟨1, 5⟩⟩⟩,
          ⟨.closing .square, ⟨⟨2, 0⟩, ⟨2, 1⟩⟩⟩, ⟨.closing .round, ⟨⟨2, 1⟩, ⟨2, 2⟩⟩⟩] := by
    decide +kernel
  rw [← htokens]
  exact (flatMap_tokens_replies (by decide +kernel)).2 (by decide +kernel)

end Source
end SExpression
