import SExpression.Printer
import SExpression.Proofs.Flattening

/-! Printed elements are read back as the same elements, up to where they stand. The printer goes
over their lexemes one after another, and whatever it has put out so far can be followed by any
text that the gap it keeps open allows. -/
namespace SExpression
open CodePoint (ofChar)

namespace Element

mutual

/-- An element without the places it was read from. -/
def bare : Element → Element
  | .atom value _ => .atom value ⟨{}, {}⟩
  | .comment text _ => .comment text ⟨{}, {}⟩
  | .group shape members _ => .group shape (bareAll members) ⟨{}, {}⟩

def bareAll : List Element → List Element
  | [] => []
  | e :: es => bare e :: bareAll es

end

@[simp] theorem bareAll_eq_map (es : List Element) : bareAll es = es.map bare := by
  induction es with
  | nil => rfl
  | cons e es ih => simp [bareAll, ih]

/-- The lexemes that elements are made of, in order. -/
def lexemes (es : List Element) : List Lexeme :=
  (tokensOf es).map Token.lexeme

theorem lexemes_cons (e : Element) (es : List Element) :
    lexemes (e :: es) = e.tokens.map Token.lexeme ++ lexemes es := by
  simp [lexemes, tokensOf]

theorem lexemes_map_bare_of_forall {es : List Element}
    (h : ∀ e ∈ es, e.bare.tokens.map Token.lexeme = e.tokens.map Token.lexeme) :
    lexemes (es.map bare) = lexemes es := by
  induction es with
  | nil => rfl
  | cons e es ih =>
    rw [List.map_cons, lexemes_cons, lexemes_cons, h e (by simp), ih fun d hd => h d (by simp [hd])]

theorem lexemes_bare (e : Element) :
    e.bare.tokens.map Token.lexeme = e.tokens.map Token.lexeme := by
  induction e using Element.induction with
  | atom => rfl
  | comment => rfl
  | group shape members span ih =>
    have hmembers := lexemes_map_bare_of_forall ih
    unfold lexemes at hmembers
    simp [bare, tokens, hmembers]

end Element

namespace CodePoint

/-- What may stand behind an atom that the printer has put out. -/
def Separates (c : CodePoint) : Prop :=
  c = ' ' ∨ c = '\n' ∨ ∃ shape : Shape, c = shape.closing

/-- No separator belongs to a class that goes on with an atom. -/
theorem Separates.notMem {c : CodePoint} (h : c.Separates) (unicode : Bool) :
    c ∉ ['_', '.', 'b', 'x'].map ofChar ∧ ¬ c.isDigit ∧ ¬ c.isBinaryDigit ∧ ¬ c.isHexDigit ∧
      ¬ c.continuesIdentifier unicode := by
  rcases h with rfl | rfl | ⟨shape, rfl⟩
  · cases unicode <;> decide
  · cases unicode <;> decide
  · cases shape <;> cases unicode <;> decide

theorem isScalar_of_isBlank {c : CodePoint} (h : c.isBlank) : c.IsScalar := by
  rcases eq_of_isBlank h with rfl | rfl | rfl <;> decide

end CodePoint

theorem not_extends_of_separates {f : Features} {value : Atom} {c : CodePoint}
    (h : c.Separates) : ¬ Extends f (.atom value) c := by
  obtain ⟨hmarks, hdigit, hbinary, hhex, hidentifier⟩ := h.notMem f.unicode
  have hwhole : ∀ whole, ¬ ExtendsWhole whole c := fun whole => by
    unfold ExtendsWhole
    split <;> simp_all
  cases value with
  | integer base digits => cases base <;> simp_all [Extends]
  | fraction => exact hdigit
  | bytes => exact id
  | string => exact id
  | identifier => exact hidentifier

/-- A lexeme that the grammar has, with a spelling that can be encoded. -/
def Lexeme.Spelled (f : Features) (lexeme : Lexeme) : Prop :=
  Spells f lexeme.spelling lexeme ∧ ∀ c ∈ lexeme.spelling, c.IsScalar

namespace Printer

/-- What goes before a lexeme. -/
def lead (p : Printer) : Lexeme → Text
  | .closing _ => if p.gap = .lineBreak then Text.ofString "\n" else []
  | _ => p.separator

/-- The gap that a lexeme leaves open. -/
def gapAfter : Lexeme → Gap
  | .opening _ => .none
  | .closing _ => .space
  | .comment _ => .lineBreak
  | .atom _ => .space

def write (p : Printer) (lexeme : Lexeme) : Printer :=
  p.put (p.lead lexeme ++ lexeme.spelling) (gapAfter lexeme)

theorem elements_eq_foldl {es : List Element}
    (h : ∀ e ∈ es, ∀ p : Printer, p.element e = (e.tokens.map Token.lexeme).foldl write p)
    (p : Printer) : p.elements es = (Element.lexemes es).foldl write p := by
  induction es generalizing p with
  | nil => rfl
  | cons e es ih =>
    rw [elements, ih (fun d hd => h d (by simp [hd])), h e (by simp), Element.lexemes_cons,
      List.foldl_append]

/-- Printing an element writes its lexemes in order. -/
theorem element_eq_foldl (e : Element) :
    ∀ p : Printer, p.element e = (e.tokens.map Token.lexeme).foldl write p := by
  induction e using Element.induction with
  | atom value span => exact fun p => rfl
  | comment text span => exact fun p => rfl
  | group shape members span ih =>
    intro p
    rw [element, elements_eq_foldl ih, Element.tokens, List.map_cons, List.map_append,
      List.foldl_cons, List.foldl_append]
    rfl

theorem element_bare (p : Printer) (e : Element) : p.element e.bare = p.element e := by
  rw [element_eq_foldl, element_eq_foldl, Element.lexemes_bare]

theorem isBlank_of_mem_lead (p : Printer) (lexeme : Lexeme) : ∀ c ∈ p.lead lexeme, c.isBlank := by
  have hseparator : ∀ c ∈ p.separator, c.isBlank := by
    unfold separator
    cases p.gap <;> decide
  cases lexeme with
  | opening => exact hseparator
  | closing =>
    show ∀ c ∈ if p.gap = .lineBreak then Text.ofString "\n" else [], c.isBlank
    split <;> decide
  | comment => exact hseparator
  | atom => exact hseparator

/-- What may follow where the gap is open. -/
def Fits : Gap → Text → Prop
  | .none, _ => True
  | .space, text => ∀ c ∈ text.head?, c.Separates
  | .lineBreak, text => ∀ c ∈ text.head?, c = '\n'

/-- Lexemes that have been put out in full: any written text that fits the gap can follow. -/
structure Ready (f : Features) (p : Printer) (done : List Lexeme) : Prop where
  isScalar : ∀ c ∈ p.text, c.IsScalar
  written {text : Text} {lexemes : List Lexeme} (h : Written f text lexemes)
    (hfits : Fits p.gap text) : Written f (p.text ++ text) (done ++ lexemes)

theorem ready_start (f : Features) : Ready f {} [] where
  isScalar := by simp [text]
  written h _ := h

/-- Whatever comes behind it, the separator fits. -/
theorem fits_separator (p : Printer) (text : Text) : Fits p.gap (p.separator ++ text) := by
  unfold separator
  cases p.gap with
  | none => trivial
  | space =>
    intro c hc
    have hhead : ofChar ' ' = c := by simpa [Text.ofString] using hc
    exact .inl hhead.symm
  | lineBreak =>
    intro c hc
    have hhead : ofChar '\n' = c := by simpa [Text.ofString] using hc
    exact hhead.symm

/-- A lexeme fits with what goes before it. -/
theorem fits_lead (p : Printer) (lexeme : Lexeme) (text : Text) :
    Fits p.gap (p.lead lexeme ++ lexeme.spelling ++ text) := by
  rw [List.append_assoc]
  cases lexeme with
  | closing shape =>
    cases hgap : p.gap with
    | none => trivial
    | space =>
      intro c hc
      have hhead : shape.closing = c := by simpa [lead, hgap, Lexeme.spelling] using hc
      exact .inr (.inr ⟨shape, hhead.symm⟩)
    | lineBreak =>
      intro c hc
      have hhead : ofChar '\n' = c := by simpa [lead, hgap, Text.ofString] using hc
      exact hhead.symm
  | _ => exact fits_separator p _

theorem ends_of_fits {f : Features} {lexeme : Lexeme} {text : Text}
    (h : Fits (gapAfter lexeme) text) : Ends f lexeme text := by
  intro c hc
  cases lexeme with
  | opening => exact id
  | closing => exact id
  | comment => exact not_not_intro (h c hc)
  | atom => exact not_extends_of_separates (h c hc)

namespace Ready

variable {f : Features} {p : Printer} {done lexemes : List Lexeme}

theorem write {lexeme : Lexeme} (h : Ready f p done) (hspelled : lexeme.Spelled f) :
    Ready f (p.write lexeme) (done ++ [lexeme]) where
  isScalar := by
    have hlead := fun c hc => CodePoint.isScalar_of_isBlank (isBlank_of_mem_lead p lexeme c hc)
    rw [Printer.write, text_put, List.forall_mem_append, List.forall_mem_append]
    exact ⟨h.isScalar, hlead, hspelled.2⟩
  written {text lexemes} hwritten hfits := by
    have hblanks := isBlank_of_mem_lead p lexeme
    have hlexeme := Written.lexeme hblanks hspelled.1 (ends_of_fits hfits) hwritten
    have hall := h.written hlexeme (fits_lead p lexeme text)
    simpa [Printer.write] using hall

theorem newline (h : Ready f p done) : Ready f p.newline done where
  isScalar := by
    rw [Printer.newline, text_put, List.forall_mem_append]
    exact ⟨h.isScalar, by decide⟩
  written {text lexemes} hwritten _ := by
    have hblanks : ∀ c ∈ Text.ofString "\n", c.isBlank := by decide
    have hfits : Fits p.gap (Text.ofString "\n" ++ text) := by
      cases p.gap with
      | none => trivial
      | space => exact fun c hc => .inr (.inl (by simpa [Text.ofString, eq_comm] using hc))
      | lineBreak => exact fun c hc => by simpa [Text.ofString, eq_comm] using hc
    have hall := h.written (hwritten.blanks_append hblanks) hfits
    simpa [Printer.newline] using hall

theorem foldl_write (h : Ready f p done) (hall : ∀ l ∈ lexemes, l.Spelled f) :
    Ready f (lexemes.foldl Printer.write p) (done ++ lexemes) := by
  induction lexemes generalizing p done with
  | nil => simpa using h
  | cons l lexemes ih =>
    have hwrite := h.write (hall l (by simp))
    have hrest := ih hwrite fun m hm => hall m (by simp [hm])
    simpa using hrest

theorem element (h : Ready f p done) {e : Element}
    (hall : ∀ l ∈ e.tokens.map Token.lexeme, l.Spelled f) :
    Ready f (p.element e) (done ++ e.tokens.map Token.lexeme) := by
  rw [element_eq_foldl]
  exact h.foldl_write hall

/-- What has been put out is written with its lexemes. -/
theorem written_text (h : Ready f p done) : Written f p.text done := by
  have hend : Written f [] [] := .blank (by simp)
  have hfits : Fits p.gap [] := by cases p.gap <;> simp [Fits]
  simpa using h.written hend hfits

theorem lines (h : Ready f p done) {es : List Element}
    (hall : ∀ l ∈ Element.lexemes es, l.Spelled f) :
    Ready f (es.foldl (fun p e => p.newline.element e) p) (done ++ Element.lexemes es) := by
  induction es generalizing p done with
  | nil => simpa [Element.lexemes, Element.tokensOf] using h
  | cons e es ih =>
    rw [Element.lexemes_cons] at hall ⊢
    rw [List.forall_mem_append] at hall
    have hrest := ih (h.newline.element hall.1) hall.2
    rwa [List.append_assoc] at hrest

end Ready
end Printer

/-- Places are not printed. -/
theorem Element.printAll_map_bare (es : List Element) : printAll (es.map bare) = printAll es := by
  cases es with
  | nil => rfl
  | cons e es => simp [printAll, Printer.element_bare, List.foldl_map]

/-- A printed document is written with the lexemes of its elements. -/
theorem Element.written_printAll {f : Features} {es : List Element}
    (hall : ∀ l ∈ lexemes es, l.Spelled f) :
    Written f (printAll es) (lexemes es) ∧ ∀ c ∈ printAll es, c.IsScalar := by
  cases es with
  | nil => exact ⟨.blank (by simp [printAll]), by simp [printAll]⟩
  | cons e es =>
    rw [lexemes_cons] at hall ⊢
    rw [List.forall_mem_append] at hall
    have hready := ((Printer.ready_start f).element hall.1).lines hall.2
    exact ⟨hready.written_text, hready.isScalar⟩

/-- An open group without the places its parts were read from. -/
def OpenGroup.bare (g : OpenGroup) : OpenGroup :=
  ⟨g.shape, ⟨{}, {}⟩, g.members.map Element.bare⟩

namespace Assembly

variable {limit : Option Int} {a b a' : Assembly} {token token' : Token}
  {tokens tokens' : List Token}

def bare (a : Assembly) : Assembly :=
  ⟨a.finished.map Element.bare, a.stack.map OpenGroup.bare⟩

theorem bare_place (a : Assembly) (e : Element) : (a.place e).bare = a.bare.place e.bare := by
  obtain ⟨finished, stack⟩ := a
  cases stack <;> simp [bare, OpenGroup.bare]

/-- Where the places do not count, steps with the same lexeme do the same. -/
theorem Moves.lockstep (h : Moves limit a token b) (ha : a'.bare = a.bare)
    (htoken : token'.lexeme = token.lexeme) :
    ∃ b', Moves limit a' token' b' ∧ b'.bare = b.bare := by
  obtain ⟨lexeme, span⟩ := token'
  obtain rfl : lexeme = token.lexeme := htoken
  obtain ⟨hfinished, hstacks⟩ := Assembly.mk.inj ha
  cases h with
  | comment => exact ⟨_, .comment, by rw [bare_place, bare_place, ha]; rfl⟩
  | atom => exact ⟨_, .atom, by rw [bare_place, bare_place, ha]; rfl⟩
  | opening hlimit =>
    have hlength : a'.stack.length = a.stack.length := by
      simpa using congrArg List.length hstacks
    refine ⟨_, .opening (hlength ▸ hlimit), ?_⟩
    simp [bare, hfinished, hstacks, OpenGroup.bare]
  | @closing top outer shape _ hstack hshape =>
    rw [hstack, List.map_cons, List.map_eq_cons_iff] at hstacks
    obtain ⟨top', outer', hstack', htop, houter⟩ := hstacks
    obtain ⟨hshape', -, hmembers⟩ := OpenGroup.mk.inj htop
    refine ⟨_, .closing hstack' (hshape'.trans hshape), ?_⟩
    have hrest : (⟨a'.finished, outer'⟩ : Assembly).bare =
        (⟨a.finished, outer⟩ : Assembly).bare := by
      simp [bare, hfinished, houter]
    rw [bare_place, bare_place, hrest]
    simp [Element.bare, hmembers]

theorem run_lockstep (h : a.run limit tokens = .ok b) (ha : a'.bare = a.bare)
    (htokens : tokens'.map Token.lexeme = tokens.map Token.lexeme) :
    ∃ b', a'.run limit tokens' = .ok b' ∧ b'.bare = b.bare := by
  induction tokens generalizing a a' tokens' with
  | nil =>
    obtain rfl := List.map_eq_nil_iff.mp htokens
    cases h
    exact ⟨a', rfl, ha⟩
  | cons token tokens ih =>
    obtain ⟨token', later', rfl, htoken, hlater⟩ := List.map_eq_cons_iff.mp htokens
    obtain ⟨c, hmoves, hrun⟩ := exists_moves_of_run_cons h
    obtain ⟨c', hmoves', hbare⟩ := hmoves.lockstep ha htoken
    rw [run_cons_of_moves hmoves']
    exact ih hrun hbare hlater

theorem Moves.unlimited (h : Moves limit a token b) : Moves none a token b := by
  cases h with
  | comment => exact .comment
  | atom => exact .atom
  | opening => exact .opening (by simp)
  | closing hstack hshape => exact .closing hstack hshape

theorem run_unlimited (h : a.run limit tokens = .ok b) : a.run none tokens = .ok b := by
  induction tokens generalizing a with
  | nil => exact h
  | cons token tokens ih =>
    obtain ⟨c, hmoves, hrun⟩ := exists_moves_of_run_cons h
    rw [run_cons_of_moves hmoves.unlimited, ih hrun]

end Assembly

namespace Source

variable {f : Features} {limit : Option Int} {source : Source}

/-- The lexemes of a source are spelled in it. -/
theorem spelled_of_tokenize {tokens : List Token} (h : source.tokenize f = .ok tokens) :
    ∀ l ∈ tokens.map Token.lexeme, Cursor.Keeps f l ∧ l.Spelled f := by
  obtain ⟨-, rfl⟩ := tokenize_eq_ok_iff.mp h
  intro l hl
  obtain ⟨token, htoken, rfl⟩ := List.mem_map.mp hl
  obtain ⟨hkeeps, middle, later, hmiddle, hstep⟩ := Cursor.step_of_mem_tokens token htoken
  obtain ⟨hrest, -, hspells, -, -⟩ := hstep
  obtain rfl := hspells.eq_spelling
  refine ⟨hkeeps, hspells, fun c hc => Utf8.isScalar_of_mem_decode c (hmiddle.mem ?_)⟩
  rw [hrest]
  simp [hc]

/-- Formatting keeps what a source means: the printed elements are read back as the same elements
but for the places they stand at, and printing these changes nothing more. -/
theorem parse_printAll {es : List Element} (h : source.parse f limit = .ok es) :
    ∃ again, (ofText (Element.printAll es)).parse f limit = .ok again ∧
      again.map Element.bare = es.map Element.bare ∧
      (ofText (Element.printAll es)).parse f none = .ok again ∧
      Element.printAll again = Element.printAll es := by
  obtain ⟨tokens, htokenize, hrun⟩ := parse_eq_ok_iff_run.mp h
  have hlexemes : Element.lexemes es = tokens.map Token.lexeme := by
    have htokens := Assembly.tokens_of_run hrun (narrow_of_tokenize htokenize)
    rw [← htokens]
    simp [Assembly.tokens, Element.lexemes]
  have hspelled := spelled_of_tokenize htokenize
  rw [← hlexemes] at hspelled
  obtain ⟨hwritten, hscalar⟩ := Element.written_printAll fun l hl => (hspelled l hl).2
  obtain ⟨tokens', htokenize', hagain⟩ :=
    tokenize_of_written hscalar hwritten fun l hl => (hspelled l hl).1
  rw [hlexemes] at hagain
  have hstart : ({} : Assembly).bare = ({} : Assembly).bare := rfl
  obtain ⟨⟨again, stack⟩, hrun', hbare⟩ := Assembly.run_lockstep hrun hstart hagain
  obtain ⟨hfinished, hstack⟩ := Assembly.mk.inj hbare
  obtain rfl : stack = [] := by simpa using hstack
  refine ⟨again, parse_eq_ok_iff_run.mpr ⟨_, htokenize', hrun'⟩, hfinished,
    parse_eq_ok_iff_run.mpr ⟨_, htokenize', Assembly.run_unlimited hrun'⟩, ?_⟩
  calc
    Element.printAll again = Element.printAll (again.map Element.bare) :=
      (Element.printAll_map_bare again).symm
    _ = Element.printAll (es.map Element.bare) := congrArg Element.printAll hfinished
    _ = Element.printAll es := Element.printAll_map_bare es

/-- Atoms that touch come back apart, and a comment ends before the group does. -/
theorem parse_printed_touching :
    ∃ again, (ofText "12\nabc\n(;c\n)").parse {} (some 1) = .ok again ∧ again.map Element.bare =
      [.atom (.integer .decimal "12") ⟨{}, {}⟩, .atom (.identifier "abc") ⟨{}, {}⟩,
        .group .round [.comment ";c" ⟨{}, {}⟩] ⟨{}, {}⟩] := by
  have hparse : (ofText "12abc( ;c\n)").parse {} (some 1) =
      .ok [.atom (.integer .decimal "12") ⟨⟨1, 0⟩, ⟨1, 2⟩⟩,
        .atom (.identifier "abc") ⟨⟨1, 2⟩, ⟨1, 5⟩⟩,
        .group .round [.comment ";c" ⟨⟨1, 7⟩, ⟨1, 9⟩⟩] ⟨⟨1, 5⟩, ⟨2, 1⟩⟩] :=
    parse_eq_ok_iff_run.mpr ⟨[⟨.atom (.integer .decimal "12"), ⟨⟨1, 0⟩, ⟨1, 2⟩⟩⟩,
      ⟨.atom (.identifier "abc"), ⟨⟨1, 2⟩, ⟨1, 5⟩⟩⟩, ⟨.opening .round, ⟨⟨1, 5⟩, ⟨1, 6⟩⟩⟩,
      ⟨.comment ";c", ⟨⟨1, 7⟩, ⟨1, 9⟩⟩⟩, ⟨.closing .round, ⟨⟨2, 0⟩, ⟨2, 1⟩⟩⟩],
      by decide +kernel, rfl⟩
  obtain ⟨again, hagain, hbare, -, -⟩ := parse_printAll hparse
  exact ⟨again, hagain, hbare⟩

end Source
end SExpression
