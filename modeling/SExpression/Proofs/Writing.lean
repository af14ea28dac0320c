import SExpression.Proofs.Printing

/-! Elements that a program builds by hand. If the features admit what they are made of, printing
them loses nothing but where they stand. -/
namespace SExpression
open CodePoint (ofChar)

namespace Element

/-- Elements that can be written down: each atom is read back from its own spelling. -/
inductive Writable (f : Features) : Element → Prop
  | atom {value : Atom} {span : Span} (h : ∃ tokens,
      (Source.ofText value.spelling).tokenize f = .ok tokens ∧
        tokens.map Token.lexeme = [.atom value]) : Writable f (.atom value span)
  | comment {more : Text} {span : Span} (hline : ofChar '\n' ∉ more)
      (hscalar : ∀ c ∈ more, c.IsScalar) : Writable f (.comment (ofChar ';' :: more) span)
  | group {shape : Shape} {members : List Element} {span : Span} (hshape : f.admits shape)
      (hmembers : ∀ e ∈ members, Writable f e) : Writable f (.group shape members span)

variable {f : Features}

theorem spelled_delimiters {shape : Shape} (h : f.admits shape) :
    Lexeme.Spelled f (.opening shape) ∧ Lexeme.Spelled f (.closing shape) := by
  refine ⟨⟨.opening h, ?_⟩, .closing h, ?_⟩ <;> cases shape <;> decide

theorem spelled_comment {more : Text} (hline : ofChar '\n' ∉ more)
    (hscalar : ∀ c ∈ more, c.IsScalar) : Lexeme.Spelled f (.comment (ofChar ';' :: more)) := by
  constructor
  · apply Spells.comment
    rintro c hc rfl
    exact hline hc
  · exact List.forall_mem_cons.mpr ⟨by decide, hscalar⟩

theorem mem_lexemes {es : List Element} {l : Lexeme} :
    l ∈ lexemes es ↔ ∃ e ∈ es, l ∈ e.tokens.map Token.lexeme := by
  induction es with
  | nil => simp [lexemes, tokensOf]
  | cons e es ih => rw [lexemes_cons, List.mem_append, ih, List.exists_mem_cons_iff]

/-- The grammar has every lexeme of an element that can be written down. -/
theorem Writable.spelled {e : Element} (h : e.Writable f) :
    ∀ l ∈ e.tokens.map Token.lexeme, l.Spelled f := by
  induction h with
  | atom h =>
    obtain ⟨tokens, htokenize, hlexemes⟩ := h
    intro l hl
    obtain rfl := List.mem_singleton.mp hl
    exact (Source.spelled_of_tokenize htokenize _ (by simp [hlexemes])).2
  | comment hline hscalar =>
    intro l hl
    obtain rfl := List.mem_singleton.mp hl
    exact spelled_comment hline hscalar
  | @group shape members span hshape _ ih =>
    have hmembers : ∀ l ∈ lexemes members, l.Spelled f := by
      intro l hl
      obtain ⟨e, he, hle⟩ := mem_lexemes.mp hl
      exact ih e he l hle
    intro l hl
    have hcases : l = .opening shape ∨ l ∈ lexemes members ∨ l = .closing shape := by
      simpa [tokens, lexemes] using hl
    rcases hcases with rfl | hl | rfl
    · exact (spelled_delimiters hshape).1
    · exact hmembers l hl
    · exact (spelled_delimiters hshape).2

end Element

namespace Source

/-- Lexemes that the grammar has are read back from print, and give elements of the same kind. -/
theorem exists_parse_printAll {f : Features} (hf : f.comments) {es : List Element}
    (h : ∀ l ∈ Element.lexemes es, l.Spelled f) :
    ∃ again, (ofText (Element.printAll es)).parse f none = .ok again ∧
      again.map Element.bare = es.map Element.bare := by
  obtain ⟨hwritten, hscalar⟩ := Element.written_printAll h
  obtain ⟨tokens, htokenize, hlexemes⟩ := tokenize_of_written hscalar hwritten fun _ _ _ => hf
  have hrun := Assembly.run_tokensOf es {}
  rw [Assembly.placeAll_top] at hrun
  have hstart : ({} : Assembly).bare = ({} : Assembly).bare := rfl
  obtain ⟨⟨again, stack⟩, hagain, hbare⟩ := Assembly.run_lockstep hrun hstart hlexemes
  obtain ⟨hfinished, hstack⟩ := Assembly.mk.inj hbare
  obtain rfl : stack = [] := by simpa using hstack
  exact ⟨again, parse_eq_ok_iff_run.mpr ⟨tokens, htokenize, hagain⟩, hfinished⟩

/-- Elements that can be written down are read back from print, up to where they stand, so that
no two documents of them look the same. -/
theorem parse_printAll_of_writable {f : Features} (hf : f.comments) {es : List Element}
    (h : ∀ e ∈ es, e.Writable f) :
    (∃ again, (ofText (Element.printAll es)).parse f none = .ok again ∧
      again.map Element.bare = es.map Element.bare) ∧
    ∀ ds : List Element, (∀ d ∈ ds, d.Writable f) → Element.printAll ds = Element.printAll es →
      ds.map Element.bare = es.map Element.bare := by
  have hparse : ∀ ds : List Element, (∀ d ∈ ds, d.Writable f) →
      ∃ again, (ofText (Element.printAll ds)).parse f none = .ok again ∧
        again.map Element.bare = ds.map Element.bare := by
    intro ds hds
    apply exists_parse_printAll hf
    intro l hl
    obtain ⟨d, hd, hld⟩ := Element.mem_lexemes.mp hl
    exact (hds d hd).spelled l hld
  refine ⟨hparse es h, ?_⟩
  intro ds hds hprint
  obtain ⟨again, hagain, hbare⟩ := hparse es h
  obtain ⟨others, hothers, hbare'⟩ := hparse ds hds
  rw [hprint, hagain] at hothers
  cases hothers
  exact hbare'.symm.trans hbare

/-- Atoms are kept apart, and the comment from what follows it. -/
theorem parse_printed_by_hand :
    ∃ again, (ofText "[;c\n1 a]\n\"\\\"\"").parse {} none = .ok again ∧ again.map Element.bare =
      [.group .square [.comment ";c" ⟨{}, {}⟩, .atom (.integer .decimal "1") ⟨{}, {}⟩,
        .atom (.identifier "a") ⟨{}, {}⟩] ⟨{}, {}⟩, .atom (.string true "\\\"") ⟨{}, {}⟩] := by
  have hcomment : Element.Writable {} (.comment ";c" ⟨{}, {}⟩) :=
    @Element.Writable.comment {} [ofChar 'c'] ⟨{}, {}⟩ (by decide) (by decide)
  have hinteger : Element.Writable {} (.atom (.integer .decimal "1") ⟨⟨7, 7⟩, ⟨3, 3⟩⟩) :=
    .atom ⟨[⟨.atom (.integer .decimal "1"), ⟨⟨1, 0⟩, ⟨1, 1⟩⟩⟩], by decide +kernel, rfl⟩
  have hidentifier : Element.Writable {} (.atom (.identifier "a") ⟨{}, {}⟩) :=
    .atom ⟨[⟨.atom (.identifier "a"), ⟨⟨1, 0⟩, ⟨1, 1⟩⟩⟩], by decide +kernel, rfl⟩
  have hstring : Element.Writable {} (.atom (.string true "\\\"") ⟨{}, {}⟩) :=
    .atom ⟨[⟨.atom (.string true "\\\""), ⟨⟨1, 0⟩, ⟨1, 4⟩⟩⟩], by decide +kernel, rfl⟩
  have hgroup : Element.Writable {} (.group .square [.comment ";c" ⟨{}, {}⟩,
      .atom (.integer .decimal "1") ⟨⟨7, 7⟩, ⟨3, 3⟩⟩, .atom (.identifier "a") ⟨{}, {}⟩]
        ⟨{}, ⟨1, 1⟩⟩) := by
    refine .group rfl ?_
    intro e he
    simp only [List.mem_cons, List.not_mem_nil, or_false] at he
    obtain rfl | rfl | rfl := he
    · exact hcomment
    · exact hinteger
    · exact hidentifier
  exact (parse_printAll_of_writable rfl (List.forall_mem_cons.mpr
    ⟨hgroup, List.forall_mem_singleton.mpr hstring⟩)).1

end Source
end SExpression
