import SExpression.Proofs.Assembly

/-! The elements of a source are its tokens in brackets: flattening them gives the tokens back,
spans included, and tokens that are a flattening are put together to the elements it came from. -/
namespace SExpression

namespace Span

/-- Where a delimiter stands at the start. -/
def first (s : Span) : Span :=
  ⟨s.start, ⟨s.start.line, s.start.column + 1⟩⟩

/-- Where a delimiter stands at the end. -/
def last (s : Span) : Span :=
  ⟨⟨s.stop.line, s.stop.column - 1⟩, s.stop⟩

end Span

namespace Element

mutual

/-- An element as the tokens that it is made of, in order. -/
def tokens : Element → List Token
  | .atom value span => [⟨.atom value, span⟩]
  | .comment text span => [⟨.comment text, span⟩]
  | .group shape members span =>
    ⟨.opening shape, span.first⟩ :: (tokensOf members ++ [⟨.closing shape, span.last⟩])

def tokensOf : List Element → List Token
  | [] => []
  | e :: es => tokens e ++ tokensOf es

end

theorem induction {p : Element → Prop} (atom : ∀ value span, p (.atom value span))
    (comment : ∀ text span, p (.comment text span))
    (group : ∀ shape members span, (∀ e ∈ members, p e) → p (.group shape members span)) :
    ∀ e, p e
  | .atom value span => atom value span
  | .comment text span => comment text span
  | .group shape members span =>
    group shape members span fun e _ => induction atom comment group e

@[simp] theorem tokensOf_append (es ds : List Element) :
    tokensOf (es ++ ds) = tokensOf es ++ tokensOf ds := by
  induction es with
  | nil => rfl
  | cons e es ih => simp [tokensOf, ih]

theorem tokensOf_eq_flatMap (es : List Element) : tokensOf es = es.flatMap tokens := by
  induction es with
  | nil => rfl
  | cons e es ih => rw [tokensOf, ih, List.flatMap_cons]

end Element

namespace Assembly

/-- Placing elements one after another. -/
def placeAll (a : Assembly) (es : List Element) : Assembly :=
  es.foldl place a

theorem placeAll_top (finished es : List Element) :
    (⟨finished, []⟩ : Assembly).placeAll es = ⟨finished ++ es, []⟩ := by
  induction es generalizing finished with
  | nil => simp [placeAll]
  | cons e es ih =>
    have h := ih (finished ++ [e])
    simpa [placeAll] using h

theorem placeAll_within (finished : List Element) (top : OpenGroup) (outer : List OpenGroup)
    (es : List Element) : (⟨finished, top :: outer⟩ : Assembly).placeAll es =
      ⟨finished, { top with members := es.reverse ++ top.members } :: outer⟩ := by
  induction es generalizing top with
  | nil => simp [placeAll]
  | cons e es ih =>
    have h := ih { top with members := e :: top.members }
    simpa [placeAll] using h

theorem run_tokensOf_of_forall {es : List Element}
    (h : ∀ e ∈ es, ∀ a : Assembly, a.run none e.tokens = .ok (a.place e)) (a : Assembly) :
    a.run none (Element.tokensOf es) = .ok (a.placeAll es) := by
  induction es generalizing a with
  | nil => rfl
  | cons e es ih =>
    rw [Element.tokensOf, run_append_of_run (h e (by simp) a)]
    exact ih (fun d hd => h d (by simp [hd])) (a.place e)

theorem run_tokens (e : Element) : ∀ a : Assembly, a.run none e.tokens = .ok (a.place e) := by
  induction e using Element.induction with
  | atom value span => exact fun a => run_cons_of_moves .atom []
  | comment text span => exact fun a => run_cons_of_moves .comment []
  | group shape members span ih =>
    intro a
    have hmembers := run_tokensOf_of_forall ih ⟨a.finished, ⟨shape, span.first, []⟩ :: a.stack⟩
    simp only [placeAll_within, List.append_nil] at hmembers
    have hclosing : Moves none ⟨a.finished, ⟨shape, span.first, members.reverse⟩ :: a.stack⟩
        ⟨.closing shape, span.last⟩ _ := .closing rfl rfl
    rw [Element.tokens, run_cons_of_moves (.opening (by simp)), run_append_of_run hmembers,
      run_cons_of_moves hclosing]
    simp [Span.extend, Span.first, Span.last]

/-- Without a limit, the tokens of elements are put together to these elements. -/
theorem run_tokensOf (es : List Element) (a : Assembly) :
    a.run none (Element.tokensOf es) = .ok (a.placeAll es) :=
  run_tokensOf_of_forall (fun e _ => run_tokens e) a

/-- The tokens that an assembly is made of. -/
def tokens (a : Assembly) : List Token :=
  Element.tokensOf a.finished ++ a.stack.reverse.flatMap fun g =>
    ⟨.opening g.shape, g.span⟩ :: Element.tokensOf g.members.reverse

theorem tokens_place (a : Assembly) (e : Element) : (a.place e).tokens = a.tokens ++ e.tokens := by
  obtain ⟨finished, stack⟩ := a
  cases stack <;> simp [tokens, Element.tokensOf]

end Assembly

/-- Delimiters are one column wide. -/
def Token.Narrow (token : Token) : Prop :=
  (∃ shape, token.lexeme = .opening shape ∨ token.lexeme = .closing shape) →
    token.span.stop = ⟨token.span.start.line, token.span.start.column + 1⟩

theorem Cursor.Step.narrow {f : Features} {cursor later : Cursor} {token : Token}
    (h : Step f cursor token later) : token.Narrow := by
  obtain @⟨blanks, spelling, rest, lexeme, hrest, hblanks, h, hends, hfault⟩ := h
  rintro ⟨shape, rfl | rfl⟩ <;> cases h <;> rw [Position.advanceOver_append] <;>
    cases shape <;> rfl

theorem Cursor.narrow_of_mem_tokens {f : Features} {cursor : Cursor} :
    ∀ t ∈ (cursor.tokens f).tokens, t.Narrow := by
  intro t ht
  obtain ⟨-, middle, later, -, hstep⟩ := step_of_mem_tokens t ht
  exact hstep.narrow

namespace Assembly

/-- A step puts its token after those that are there already. -/
theorem Moves.tokens_eq {limit : Option Int} {a b : Assembly} {token : Token}
    (h : Moves limit a token b) (htoken : token.Narrow) (ha : ∀ t ∈ a.tokens, t.Narrow) :
    b.tokens = a.tokens ++ [token] := by
  cases h with
  | comment => exact tokens_place a _
  | atom => exact tokens_place a _
  | opening => simp [Assembly.tokens, Element.tokensOf]
  | @closing top outer shape span hstack hshape =>
    subst hshape
    have htop : top.span.stop = ⟨top.span.start.line, top.span.start.column + 1⟩ :=
      ha ⟨.opening top.shape, top.span⟩ (by simp [Assembly.tokens, hstack]) ⟨_, .inl rfl⟩
    have hspan : span.stop = ⟨span.start.line, span.start.column + 1⟩ := htoken ⟨_, .inr rfl⟩
    have hfirst : (top.span.extend span).first = top.span := by
      rw [Span.first, Span.extend, ← htop]
    have hlast : (top.span.extend span).last = span := by
      obtain ⟨start, stop⟩ := span
      simp_all [Span.last, Span.extend]
    rw [tokens_place, Element.tokens, hfirst, hlast]
    simp [Assembly.tokens, hstack]

/-- A run has put together the tokens that it has read, and no others. -/
theorem tokens_of_run {limit : Option Int} {tokens : List Token} {b : Assembly}
    (h : ({} : Assembly).run limit tokens = .ok b) (hnarrow : ∀ t ∈ tokens, t.Narrow) :
    b.tokens = tokens := by
  revert hnarrow
  refine run_induction (p := fun done b => (∀ t ∈ done, t.Narrow) → b.tokens = done) ?_ ?_ h
  · intro _
    rfl
  · intro done b token c ih hmoves hnarrow
    have hdone := ih fun t ht => hnarrow t (by simp [ht])
    rw [hmoves.tokens_eq (hnarrow token (by simp)) fun t ht => hnarrow t (by simp [← hdone, ht]),
      hdone]

end Assembly

namespace Source

theorem narrow_of_tokenize {f : Features} {source : Source} {tokens : List Token}
    (h : source.tokenize f = .ok tokens) : ∀ t ∈ tokens, t.Narrow := by
  obtain ⟨-, rfl⟩ := tokenize_eq_ok_iff.mp h
  exact Cursor.narrow_of_mem_tokens

/-- Without a limit, a source parses to elements exactly where its tokens are those that the
elements are made of. -/
theorem parse_eq_ok_iff_tokenize (f : Features) (source : Source) (elements : List Element) :
    source.parse f none = .ok elements ↔
      source.tokenize f = .ok (Element.tokensOf elements) := by
  rw [parse_eq_ok_iff_run]
  constructor
  · rintro ⟨tokens, htokenize, hrun⟩
    have hnarrow := fun t ht => narrow_of_tokenize htokenize t ht
    have htokens := Assembly.tokens_of_run hrun hnarrow
    rw [← htokens] at htokenize
    simpa [Assembly.tokens] using htokenize
  · intro htokenize
    have hrun := Assembly.run_tokensOf elements {}
    rw [Assembly.placeAll_top] at hrun
    exact ⟨_, htokenize, hrun⟩

end Source
end SExpression
