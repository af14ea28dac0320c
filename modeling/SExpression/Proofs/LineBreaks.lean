import SExpression.Proofs.Numerals
import SExpression.Proofs.Printing

/-! Where print breaks lines. What goes before a lexeme depends on the gap alone, so that behind a
newline elements are printed as they are from the start, and a document is its elements joined. -/
namespace SExpression
open CodePoint (ofChar)

/-- The line ends behind a comment, and behind a lexeme that an element of the document ends with
as the mark says. -/
def endsLine (m : Lexeme × Bool) : Bool :=
  m.1.isComment || m.2

/-- Marked lexemes in lines. A newline stands behind each that ends a line and that more follows;
the others are at most one space apart. -/
inductive Typeset : List (Lexeme × Bool) → Text → Prop
  | nil : Typeset [] []
  | last (m : Lexeme × Bool) : Typeset [m] m.1.spelling
  | lineBreak {m : Lexeme × Bool} {more : List (Lexeme × Bool)} {text : Text} (h : endsLine m)
      (hmore : more ≠ []) (htext : Typeset more text) :
      Typeset (m :: more) (m.1.spelling ++ ofChar '\n' :: text)
  | within {m : Lexeme × Bool} {gap text : Text} {more : List (Lexeme × Bool)} (h : ¬ endsLine m)
      (hgap : gap = [] ∨ gap = [ofChar ' ']) (hmore : more ≠ []) (htext : Typeset more text) :
      Typeset (m :: more) (m.1.spelling ++ gap ++ text)

namespace Typeset

variable {marked more : List (Lexeme × Bool)} {text rest : Text}

/-- Behind the end of a line, more lines can follow. -/
theorem append (h : Typeset marked text) (hlast : ∃ m ∈ marked.getLast?, endsLine m)
    (hmore : more ≠ []) (hrest : Typeset more rest) :
    Typeset (marked ++ more) (text ++ ofChar '\n' :: rest) := by
  induction h with
  | nil =>
    obtain ⟨m, hm, -⟩ := hlast
    cases hm
  | last =>
    obtain ⟨m, hm, hends⟩ := hlast
    obtain rfl := Option.some.inj hm
    exact .lineBreak hends hmore hrest
  | lineBreak h hothers _ ih =>
    rw [List.getLast?_cons_of_ne_nil hothers] at hlast
    have hall := lineBreak h (List.append_ne_nil_of_left_ne_nil hothers more) (ih hlast)
    simpa using hall
  | within h hgap hothers _ ih =>
    rw [List.getLast?_cons_of_ne_nil hothers] at hlast
    have hall := within h hgap (List.append_ne_nil_of_left_ne_nil hothers more) (ih hlast)
    simpa using hall

/-- Besides the newlines in spellings there is one for each lexeme that ends a line, but not for
the last of all. -/
theorem count_newline (h : Typeset marked text) : text.count (ofChar '\n') =
    (marked.map fun m => m.1.spelling.count (ofChar '\n')).sum +
      marked.dropLast.countP endsLine := by
  induction h with
  | nil => rfl
  | last => simp
  | lineBreak h hothers _ ih =>
    rw [List.dropLast_cons_of_ne_nil hothers, List.countP_cons_of_pos h, List.count_append,
      List.count_cons_self, ih, List.map_cons, List.sum_cons]
    omega
  | @within m gap text others h hgap hothers _ ih =>
    have hcount : gap.count (ofChar '\n') = 0 := by
      rcases hgap with rfl | rfl <;> decide
    rw [List.dropLast_cons_of_ne_nil hothers, List.countP_cons_of_neg h, List.count_append,
      List.count_append, hcount, ih, List.map_cons, List.sum_cons]
    omega

end Typeset

namespace Printer

/-- What writing the lexemes adds where the gap is open. -/
def addition : Gap → List Lexeme → Text
  | _, [] => []
  | gap, l :: ls => lead ⟨[], gap⟩ l ++ l.spelling ++ addition (gapAfter l) ls

theorem lead_eq (p : Printer) (l : Lexeme) : p.lead l = lead ⟨[], p.gap⟩ l := by
  cases l <;> rfl

theorem lead_none (l : Lexeme) : lead ⟨[], .none⟩ l = [] := by
  cases l <;> rfl

theorem lead_lineBreak (l : Lexeme) : lead ⟨[], .lineBreak⟩ l = [ofChar '\n'] := by
  cases l <;> rfl

theorem lead_space (l : Lexeme) :
    lead ⟨[], .space⟩ l = [] ∨ lead ⟨[], .space⟩ l = [ofChar ' '] := by
  cases l with
  | closing => exact .inl rfl
  | _ => exact .inr rfl

/-- Between two lexemes of an element the line ends where the first one is a comment. -/
theorem lead_gapAfter (l next : Lexeme) : if l.isComment
    then lead ⟨[], gapAfter l⟩ next = [ofChar '\n']
    else lead ⟨[], gapAfter l⟩ next = [] ∨ lead ⟨[], gapAfter l⟩ next = [ofChar ' '] := by
  cases l with
  | opening => exact .inl (lead_none next)
  | closing => exact lead_space next
  | comment => exact lead_lineBreak next
  | atom => exact lead_space next

theorem text_foldl_write (p : Printer) (ls : List Lexeme) :
    (ls.foldl write p).text = p.text ++ addition p.gap ls := by
  induction ls generalizing p with
  | nil => simp [addition]
  | cons l ls ih =>
    rw [List.foldl_cons, ih, write, text_put, gap_put, lead_eq, addition]
    simp only [List.append_assoc]

theorem print_eq_addition (e : Element) :
    e.print = addition .none (e.tokens.map Token.lexeme) := by
  rw [Element.print, element_eq_foldl, text_foldl_write]
  rfl

/-- Whatever has been put out, an element behind a newline is printed as it is alone. -/
theorem text_newline_element (p : Printer) (e : Element) :
    (p.newline.element e).text = p.text ++ [ofChar '\n'] ++ e.print := by
  rw [element_eq_foldl, text_foldl_write, print_eq_addition, newline, text_put, gap_put]
  rfl

theorem text_foldl_newline {p : Printer} {before : Text} {e : Element}
    (hp : p.text = before ++ e.print) (es : List Element) :
    (es.foldl (fun p e => p.newline.element e) p).text =
      before ++ [ofChar '\n'].intercalate ((e :: es).map Element.print) := by
  induction es generalizing p before e with
  | nil => simpa using hp
  | cons d es ih =>
    have hd := text_newline_element p d
    rw [hp] at hd
    rw [List.foldl_cons, ih hd]
    simp [List.intercalate_cons_cons]

end Printer

namespace Element
open Printer (addition gapAfter)

/-- A document is printed as its elements are, each on lines of its own. -/
theorem printAll_eq_intercalate (es : List Element) :
    printAll es = [ofChar '\n'].intercalate (es.map print) := by
  cases es with
  | nil => rfl
  | cons e es =>
    have hprint : (({} : Printer).element e).text = [] ++ e.print := rfl
    exact Printer.text_foldl_newline hprint es

/-- The lexemes with whether they are the last one. -/
def markLast : List Lexeme → List (Lexeme × Bool)
  | [] => []
  | [l] => [(l, true)]
  | l :: next :: ls => (l, false) :: markLast (next :: ls)

/-- The lexemes of a document, each with whether an element of the document ends with it. -/
def marked (es : List Element) : List (Lexeme × Bool) :=
  es.flatMap fun e => markLast (e.tokens.map Token.lexeme)

theorem marked_cons (e : Element) (es : List Element) :
    marked (e :: es) = markLast (e.tokens.map Token.lexeme) ++ marked es :=
  List.flatMap_cons

theorem map_fst_markLast (ls : List Lexeme) : (markLast ls).map Prod.fst = ls := by
  fun_induction markLast ls with
  | case1 => rfl
  | case2 => rfl
  | case3 l next ls ih => rw [List.map_cons, ih]

theorem map_fst_marked (es : List Element) : (marked es).map Prod.fst = lexemes es := by
  induction es with
  | nil => rfl
  | cons e es ih => rw [lexemes_cons, marked_cons, List.map_append, map_fst_markLast, ih]

theorem exists_getLast?_markLast (l : Lexeme) (ls : List Lexeme) :
    ∃ m ∈ (markLast (l :: ls)).getLast?, endsLine m := by
  induction ls generalizing l with
  | nil => exact ⟨(l, true), rfl, Bool.or_true _⟩
  | cons next ls ih =>
    obtain ⟨m, hm, hends⟩ := ih next
    refine ⟨m, ?_, hends⟩
    rw [markLast, List.getLast?_cons, Option.mem_def.mp hm]
    rfl

theorem markLast_ne_nil (l : Lexeme) (ls : List Lexeme) : markLast (l :: ls) ≠ [] := by
  cases ls <;> exact List.cons_ne_nil _ _

theorem typeset_addition (l : Lexeme) (ls : List Lexeme) :
    Typeset (markLast (l :: ls)) (l.spelling ++ addition (gapAfter l) ls) := by
  induction ls generalizing l with
  | nil =>
    rw [addition, List.append_nil]
    exact .last (l, true)
  | cons next ls ih =>
    have hlead := Printer.lead_gapAfter l next
    have hends : endsLine (l, false) = l.isComment := Bool.or_false _
    rw [addition]
    split at hlead
    next hcomment =>
      rw [← hends] at hcomment
      rw [hlead, List.append_assoc]
      exact .lineBreak hcomment (markLast_ne_nil next ls) (ih next)
    next hcomment =>
      rw [← hends] at hcomment
      rw [List.append_assoc, ← List.append_assoc]
      exact .within hcomment hlead (markLast_ne_nil next ls) (ih next)

theorem exists_lexemes_eq_cons (e : Element) : ∃ l ls, e.tokens.map Token.lexeme = l :: ls := by
  cases e <;> exact ⟨_, _, rfl⟩

/-- Print is set in lines, of which comments and the elements of the document end one each. -/
theorem typeset_printAll (es : List Element) : Typeset (marked es) (printAll es) := by
  rw [printAll_eq_intercalate]
  induction es with
  | nil => exact .nil
  | cons e es ih =>
    obtain ⟨l, ls, hlexemes⟩ := exists_lexemes_eq_cons e
    have he : Typeset (markLast (l :: ls)) e.print := by
      rw [Printer.print_eq_addition, hlexemes, addition, Printer.lead_none]
      exact typeset_addition l ls
    rw [marked_cons, hlexemes]
    cases es with
    | nil => simpa [marked] using he
    | cons d es =>
      obtain ⟨l', ls', hlexemes'⟩ := exists_lexemes_eq_cons d
      have hmore : marked (d :: es) ≠ [] := by
        rw [marked_cons, hlexemes']
        exact List.append_ne_nil_of_left_ne_nil (markLast_ne_nil l' ls') _
      have hall := he.append (exists_getLast?_markLast l ls) hmore ih
      simpa [List.intercalate_cons_cons] using hall

theorem count_newline_printAll (es : List Element) : (printAll es).count (ofChar '\n') =
    ((lexemes es).map fun l => l.spelling.count (ofChar '\n')).sum +
      (marked es).dropLast.countP endsLine := by
  rw [(typeset_printAll es).count_newline, ← map_fst_marked, List.map_map]
  rfl

end Element

/-- Of all lexemes only strings can hold newlines. -/
theorem Spells.newline_notMem {f : Features} {text : Text} {lexeme : Lexeme}
    (h : Spells f text lexeme) (hstring : ∀ escaped body, lexeme ≠ .atom (.string escaped body)) :
    ofChar '\n' ∉ text := by
  have hseparates : (ofChar '\n').Separates := .inr (.inl rfl)
  obtain ⟨-, hdigit, hbinary, hhex, hidentifier⟩ := hseparates.notMem f.unicode
  have hsign {c : Char} (hc : c ≠ '\n') : ofChar '\n' ≠ ofChar c := fun h =>
    hc (Char.toNat_inj.mp (congrArg CodePoint.value h)).symm
  have hseparated {digits : Text} {p : CodePoint → Bool} (hp : ¬ p '\n')
      (hdigits : ∀ c ∈ digits, p c ∨ c = '_') : ofChar '\n' ∉ digits := by
    intro hmem
    rcases hdigits _ hmem with hc | hc
    · exact hp hc
    · exact absurd hc (by decide)
  cases h with
  | @opening shape => cases shape <;> decide
  | @closing shape => cases shape <;> decide
  | comment h => simpa [hsign] using fun hmem => h _ hmem rfl
  | string => exact absurd rfl (hstring _ _)
  | bytes hf h => simpa [hsign] using fun hmem => hhex (h _ hmem)
  | binary h => simpa [hsign] using hseparated hbinary h
  | hexadecimal h => simpa [hsign] using hseparated hhex h
  | decimal h => exact hseparated hdigit h.isDigit_or
  | fraction h hpart =>
    simpa [hsign] using ⟨hseparated hdigit h.isDigit_or, fun hmem => hdigit (hpart _ hmem)⟩
  | identifier hc _ h =>
    intro hmem
    rcases List.mem_cons.mp hmem with rfl | hmem
    · exact hidentifier (by simp [CodePoint.continuesIdentifier, hc])
    · exact hidentifier (h _ hmem)

namespace Source

/-- What a source parses to is made of lexemes that are spelled in it. -/
theorem spells_of_parse {f : Features} {limit : Option ℤ} {source : Source} {es : List Element}
    (h : source.parse f limit = .ok es) : ∀ l ∈ Element.lexemes es, Spells f l.spelling l := by
  obtain ⟨tokens, htokenize, hrun⟩ := parse_eq_ok_iff_run.mp h
  have htokens := Assembly.tokens_of_run hrun (narrow_of_tokenize htokenize)
  have hlexemes : Element.lexemes es = tokens.map Token.lexeme := by
    rw [← htokens]
    simp [Assembly.tokens, Element.lexemes]
  intro l hl
  rw [hlexemes] at hl
  exact (spelled_of_tokenize htokenize l hl).2.1

end Source

namespace Element

/-- A document is printed as its elements are, joined by newlines. Where it was parsed, all other
newlines in print are in strings or behind a comment that more of its element follows. -/
theorem printAll_in_lines :
    (∀ es, printAll es = [ofChar '\n'].intercalate (es.map print)) ∧
    ∀ (f : Features) (limit : Option ℤ) (source : Source) (es : List Element),
      source.parse f limit = .ok es →
        Typeset (marked es) (printAll es) ∧
        (∀ l ∈ lexemes es, ofChar '\n' ∈ l.spelling →
          ∃ escaped body, l = .atom (.string escaped body)) ∧
        (printAll es).count (ofChar '\n') =
          ((lexemes es).map fun l => l.spelling.count (ofChar '\n')).sum +
            (marked es).dropLast.countP endsLine := by
  refine ⟨printAll_eq_intercalate, ?_⟩
  intro f limit source es h
  refine ⟨typeset_printAll es, ?_, count_newline_printAll es⟩
  intro l hl hnewline
  by_contra! hstring
  exact (Source.spells_of_parse h l hl).newline_notMem hstring hnewline

/-- A newline in a string, one behind a comment in a group, and one each behind the group and the
comment that follows it. -/
theorem printAll_in_lines_commented :
    ∃ es, (Source.ofText "(;c\n\"x\ny\");d\nb").parse {} none = .ok es ∧
      [ofChar '\n'].intercalate (es.map print) = "(;c\n\"x\ny\")\n;d\nb" ∧
      ((lexemes es).map fun l => l.spelling.count (ofChar '\n')).sum = 1 ∧
      (printAll es).count (ofChar '\n') = 1 + 3 := by
  have hparse : (Source.ofText "(;c\n\"x\ny\");d\nb").parse {} none =
      .ok [.group .round [.comment ";c" ⟨⟨1, 1⟩, ⟨1, 3⟩⟩,
          .atom (.string false "x\ny") ⟨⟨2, 0⟩, ⟨3, 2⟩⟩] ⟨⟨1, 0⟩, ⟨3, 3⟩⟩,
        .comment ";d" ⟨⟨3, 3⟩, ⟨3, 5⟩⟩, .atom (.identifier "b") ⟨⟨4, 0⟩, ⟨4, 1⟩⟩] :=
    Source.parse_eq_ok_iff_run.mpr ⟨[⟨.opening .round, ⟨⟨1, 0⟩, ⟨1, 1⟩⟩⟩,
      ⟨.comment ";c", ⟨⟨1, 1⟩, ⟨1, 3⟩⟩⟩, ⟨.atom (.string false "x\ny"), ⟨⟨2, 0⟩, ⟨3, 2⟩⟩⟩,
      ⟨.closing .round, ⟨⟨3, 2⟩, ⟨3, 3⟩⟩⟩, ⟨.comment ";d", ⟨⟨3, 3⟩, ⟨3, 5⟩⟩⟩,
      ⟨.atom (.identifier "b"), ⟨⟨4, 0⟩, ⟨4, 1⟩⟩⟩], by decide +kernel, rfl⟩
  obtain ⟨hprint, hparsed⟩ := printAll_in_lines
  obtain ⟨-, -, hcount⟩ := hparsed {} none _ _ hparse
  refine ⟨_, hparse, ?_, by decide, hcount.trans (by decide)⟩
  rw [← hprint]
  decide

end Element
end SExpression
