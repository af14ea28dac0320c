import SExpression.Proofs.Concatenation
import SExpression.Proofs.Writing

/-! Whatever a printer is told, in any order and balanced or not, is read back from what it has put
out: each call but a line break gives one token, and these come in the order of the calls. -/
namespace SExpression
open CodePoint (ofChar)

/-- What stands alone as one lexeme does so before a text that does not go on with it. -/
theorem Written.append_of_ends {f : Features} {word text : Text} {lexeme : Lexeme}
    {lexemes : List Lexeme} (h : Written f word [lexeme]) (htext : Written f text lexemes)
    (hends : Ends f lexeme text) : Written f (word ++ text) (lexeme :: lexemes) := by
  generalize halone : [lexeme] = alone at h
  cases h with
  | blank => cases halone
  | @lexeme blanks spelling rest _ _ hblanks hspells hrestends hrest =>
    obtain ⟨rfl, rfl⟩ := List.cons.inj halone
    cases hrest with
    | blank hrest =>
      have hboth : Ends f lexeme (rest ++ text) := by
        cases rest with
        | nil => exact hends
        | cons c cs => exact hrestends
      rw [List.append_assoc]
      exact .lexeme hblanks hspells hboth (htext.blanks_append hrest)

namespace Printer

/-- What a printer can be told. -/
inductive Call where
  | opening (shape : Shape)
  | closing (shape : Shape)
  | word (text : Text)
  | comment (text : Text)
  | newline
deriving DecidableEq

namespace Call

def apply (p : Printer) : Call → Printer
  | .opening shape => p.opening shape
  | .closing shape => p.closing shape
  | .word text => p.word text
  | .comment text => p.comment text
  | .newline => p.newline

/-- What a call is to be read back as. A word has to be one atom where it is read alone. -/
inductive Gives (f : Features) : Call → Lexeme → Prop
  | opening {shape : Shape} (h : f.admits shape) : Gives f (.opening shape) (.opening shape)
  | closing {shape : Shape} (h : f.admits shape) : Gives f (.closing shape) (.closing shape)
  | word {text : Text} {value : Atom} {span : Span}
      (h : (Source.ofText text).tokenize f = .ok [⟨.atom value, span⟩]) :
      Gives f (.word text) (.atom value)
  | comment {more : Text} (hline : ofChar '\n' ∉ more) (hscalar : ∀ c ∈ more, c.IsScalar) :
      Gives f (.comment (ofChar ';' :: more)) (.comment (ofChar ';' :: more))

end Call

namespace Ready

variable {f : Features} {p : Printer} {done : List Lexeme} {call : Call} {calls : List Call}
  {lexeme : Lexeme}

/-- A word may have blanks around it, which are put out with it. -/
theorem word (h : Ready f p done) {word : Text} {value : Atom} (hscalar : ∀ c ∈ word, c.IsScalar)
    (hword : Written f word [.atom value]) : Ready f (p.word word) (done ++ [.atom value]) where
  isScalar := by
    have hblanks : ∀ c ∈ p.separator, c.isBlank := isBlank_of_mem_lead p (.atom value)
    rw [Printer.word, text_put, List.forall_mem_append, List.forall_mem_append]
    exact ⟨h.isScalar, fun c hc => CodePoint.isScalar_of_isBlank (hblanks c hc), hscalar⟩
  written {text lexemes} hwritten hfits := by
    have hblanks : ∀ c ∈ p.separator, c.isBlank := isBlank_of_mem_lead p (.atom value)
    have hends : Ends f (.atom value) text := ends_of_fits hfits
    have hlater := (hword.append_of_ends hwritten hends).blanks_append hblanks
    have hall := h.written hlater (fits_separator p (word ++ text))
    simpa [Printer.word] using hall

theorem apply (hf : f.comments) (h : Ready f p done) (hcall : call.Gives f lexeme) :
    Ready f (Call.apply p call) (done ++ [lexeme]) := by
  cases hcall with
  | opening hshape => exact h.write (Element.spelled_delimiters hshape).1
  | closing hshape => exact h.write (Element.spelled_delimiters hshape).2
  | word hword =>
    have hscalar := Source.isScalar_of_tokenize hword
    exact h.word hscalar ((Source.tokenize_iff_written hscalar hf _).mp ⟨_, hword, rfl⟩)
  | comment hline hscalar => exact h.write (Element.spelled_comment hline hscalar)

/-- Line breaks add nothing to what is read back. -/
theorem foldl_apply (hf : f.comments) (h : Ready f p done)
    (hcalls : ∀ call ∈ calls, call = .newline ∨ ∃ lexeme, call.Gives f lexeme) :
    ∃ lexemes, Ready f (calls.foldl Call.apply p) (done ++ lexemes) ∧
      List.Forall₂ (Call.Gives f) (calls.filter (· ≠ .newline)) lexemes := by
  induction calls generalizing p done with
  | nil => exact ⟨[], by simpa using h, .nil⟩
  | cons call calls ih =>
    obtain ⟨hcall, hlater⟩ := List.forall_mem_cons.mp hcalls
    rcases hcall with rfl | ⟨lexeme, hgives⟩
    · exact ih h.newline hlater
    · obtain ⟨lexemes, hready, hall⟩ := ih (h.apply hf hgives) hlater
      have hnewline : call ≠ .newline := by
        rintro rfl
        cases hgives
      refine ⟨lexeme :: lexemes, ?_, ?_⟩
      · simpa using hready
      · rw [List.filter_cons_of_pos (by simpa using hnewline)]
        exact .cons hgives hall

end Ready

/-- With comments on, what a printer has put out is read back as what it was told: one token for
each call but line breaks, in order, with the delimiter, the atom or the comment of the call. -/
theorem tokenize_calls {f : Features} (hf : f.comments) {calls : List Call}
    (h : ∀ call ∈ calls, call = .newline ∨ ∃ lexeme, call.Gives f lexeme) :
    ∃ tokens, (Source.ofText (calls.foldl Call.apply {}).text).tokenize f = .ok tokens ∧
      List.Forall₂ (Call.Gives f) (calls.filter (· ≠ .newline)) (tokens.map Token.lexeme) := by
  obtain ⟨lexemes, hready, hall⟩ := (ready_start f).foldl_apply hf h
  obtain ⟨tokens, htokenize, rfl⟩ :=
    (Source.tokenize_iff_written hready.isScalar hf _).mpr hready.written_text
  exact ⟨tokens, htokenize, hall⟩

/-- Nothing is balanced here, each comment is followed by something else, and the number comes with
blanks around it. -/
theorem tokenize_calls_unbalanced :
    let calls : List Call := [.comment ";a", .closing .round, .word " 1\n", .word "x", .comment ";",
      .newline, .word "\"\"", .opening .curly]
    (calls.foldl Call.apply {}).text = ";a\n)  1\n x ;\n\"\" \x7b" ∧
    ∃ tokens, (Source.ofText (calls.foldl Call.apply {}).text).tokenize {} = .ok tokens ∧
      List.Forall₂ (Call.Gives {}) (calls.filter (· ≠ .newline)) (tokens.map Token.lexeme) := by
  intro calls
  have hcomment (more : Text) (hmore : ofChar '\n' ∉ more ∧ ∀ c ∈ more, c.IsScalar) :
      ∃ lexeme, Call.Gives {} (.comment (ofChar ';' :: more)) lexeme :=
    ⟨_, .comment hmore.1 hmore.2⟩
  have hnumber : Call.Gives {} (.word " 1\n") (.atom (.integer .decimal "1")) :=
    @Call.Gives.word _ _ _ ⟨⟨1, 1⟩, ⟨1, 2⟩⟩ (by decide +kernel)
  have hname : Call.Gives {} (.word "x") (.atom (.identifier "x")) :=
    @Call.Gives.word _ _ _ ⟨⟨1, 0⟩, ⟨1, 1⟩⟩ (by decide +kernel)
  have hstring : Call.Gives {} (.word "\"\"") (.atom (.string false [])) :=
    @Call.Gives.word _ _ _ ⟨⟨1, 0⟩, ⟨1, 2⟩⟩ (by decide +kernel)
  have hcalls : ∀ call ∈ calls, call = .newline ∨ ∃ lexeme, Call.Gives {} call lexeme := by
    simp only [calls, List.forall_mem_cons]
    exact ⟨.inr (hcomment "a" (by decide)), .inr ⟨_, .closing rfl⟩, .inr ⟨_, hnumber⟩,
      .inr ⟨_, hname⟩, .inr (hcomment "" (by decide)), .inl trivial, .inr ⟨_, hstring⟩,
      .inr ⟨_, .opening rfl⟩, by simp⟩
  exact ⟨by decide, tokenize_calls rfl hcalls⟩

end Printer
end SExpression
