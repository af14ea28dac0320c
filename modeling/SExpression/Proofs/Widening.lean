import SExpression.Proofs.Assembly

/-! A source that is read to its end is read the same where more may be used: brackets, braces, and
identifiers that leave ASCII. What these add can stand nowhere else in such a source. -/
namespace SExpression

/-- More may be used of brackets, braces and Unicode, and all else is the same. -/
structure Features.WidensTo (f g : Features) : Prop where
  comments_eq : g.comments = f.comments
  bytes_eq : g.bytes = f.bytes
  brackets : f.brackets → g.brackets
  braces : f.braces → g.braces
  unicode : f.unicode → g.unicode

theorem Features.WidensTo.admits {f g : Features} (h : f.WidensTo g) {shape : Shape}
    (hshape : f.admits shape) : g.admits shape := by
  cases shape with
  | round => rfl
  | square => exact h.brackets hshape
  | curly => exact h.braces hshape

namespace CodePoint

variable {c : CodePoint}

def IsAscii (c : CodePoint) : Prop :=
  c.value < 128

instance (c : CodePoint) : Decidable c.IsAscii :=
  inferInstanceAs (Decidable (_ < _))

/-- Within ASCII, Unicode adds nothing to identifiers. -/
theorem identifier_eq_of_isAscii (h : c.IsAscii) :
    c.startsIdentifier true = c.startsIdentifier false ∧
      c.continuesIdentifier true = c.continuesIdentifier false := by
  have hall : ∀ n : Fin 128, (⟨n, by omega⟩ : CodePoint).startsIdentifier true =
        (⟨n, by omega⟩ : CodePoint).startsIdentifier false ∧
      (⟨n, by omega⟩ : CodePoint).continuesIdentifier true =
        (⟨n, by omega⟩ : CodePoint).continuesIdentifier false := by
    decide +kernel
  exact hall ⟨c.value, h⟩

theorem isAscii_of_isBetween {low high : Char} (h : c.isBetween low high)
    (hhigh : high.toNat < 128) : c.IsAscii := by
  simp only [isBetween, Bool.and_eq_true, decide_eq_true_eq] at h
  exact h.2.trans_lt hhigh

theorem isAscii_of_isDigit (h : c.isDigit) : c.IsAscii :=
  isAscii_of_isBetween h (by decide)

theorem isAscii_of_isBlank (h : c.isBlank) : c.IsAscii := by
  rcases eq_of_isBlank h with rfl | rfl | rfl <;> decide

theorem isAscii_of_startsIdentifier (h : c.startsIdentifier false) : c.IsAscii := by
  have hoperators : ∀ d ∈ Text.ofString "?!#@$+-*/=<>,.:|%^&~'`", d.IsAscii := by decide
  simp only [startsIdentifier, isOperator, isLetter, Bool.or_eq_true, decide_eq_true_eq,
    List.contains_iff_mem, Bool.false_eq_true, if_false] at h
  rcases h with (rfl | hoperator) | hlower | hupper
  · decide
  · exact hoperators c hoperator
  · exact isAscii_of_isBetween hlower (by decide)
  · exact isAscii_of_isBetween hupper (by decide)

theorem isAscii_of_continuesIdentifier (h : c.continuesIdentifier false) : c.IsAscii := by
  simp only [continuesIdentifier, Bool.false_and, Bool.or_false, Bool.or_eq_true] at h
  rcases h with hdigit | hstart
  · exact isAscii_of_isDigit hdigit
  · exact isAscii_of_startsIdentifier hstart

variable {unicode unicode' : Bool}

theorem startsIdentifier_mono (hle : unicode → unicode') (h : c.startsIdentifier unicode) :
    c.startsIdentifier unicode' := by
  cases unicode with
  | true => rwa [hle rfl]
  | false =>
    cases unicode' with
    | true => rwa [(identifier_eq_of_isAscii (isAscii_of_startsIdentifier h)).1]
    | false => exact h

theorem continuesIdentifier_mono (hle : unicode → unicode') (h : c.continuesIdentifier unicode) :
    c.continuesIdentifier unicode' := by
  cases unicode with
  | true => rwa [hle rfl]
  | false =>
    cases unicode' with
    | true => rwa [(identifier_eq_of_isAscii (isAscii_of_continuesIdentifier h)).2]
    | false => exact h

end CodePoint

section Lexemes

variable {f g : Features} {text rest : Text} {lexeme : Lexeme} {c : CodePoint}

theorem Spells.widen (h : Spells f text lexeme) (hle : f.WidensTo g) : Spells g text lexeme := by
  cases h with
  | opening h => exact .opening (hle.admits h)
  | closing h => exact .closing (hle.admits h)
  | comment h => exact .comment h
  | string h hescaped => exact .string h hescaped
  | bytes hf h => exact .bytes (hle.bytes_eq.trans hf) h
  | binary h => exact .binary h
  | hexadecimal h => exact .hexadecimal h
  | decimal h => exact .decimal h
  | fraction h hpart => exact .fraction h hpart
  | identifier hc hsign h =>
    refine .identifier (CodePoint.startsIdentifier_mono hle.unicode hc) ?_ fun d hd =>
      CodePoint.continuesIdentifier_mono hle.unicode (h d hd)
    rwa [hle.bytes_eq]

/-- Only where Unicode is new, and only beyond ASCII, is there more that goes on with a lexeme. -/
theorem Extends.narrow (h : Extends g lexeme c) (hle : f.WidensTo g)
    (hc : f.unicode = false → c.IsAscii) : Extends f lexeme c := by
  cases lexeme with
  | opening => exact h
  | closing => exact h
  | comment => exact h
  | atom value =>
    cases value with
    | integer base => cases base <;> exact h
    | fraction => exact h
    | bytes => exact h
    | string => exact h
    | identifier =>
      have h : c.continuesIdentifier g.unicode := h
      show c.continuesIdentifier f.unicode
      cases hf : f.unicode with
      | true => rwa [hle.unicode hf] at h
      | false =>
        cases hg : g.unicode with
        | true => rwa [hg, (CodePoint.identifier_eq_of_isAscii (hc hf)).2] at h
        | false => rwa [hg] at h

theorem Spells.isAscii_head (h : Spells f text lexeme) (hf : f.unicode = false) :
    ∀ c ∈ text.head?, c.IsAscii := by
  have hwhole {whole : Text} (h : Whole whole) (more : Text) :
      ∀ c ∈ (whole ++ more).head?, c.IsAscii := by
    obtain ⟨d, digits, rfl, hd⟩ := h.eq_cons
    simpa using CodePoint.isAscii_of_isDigit hd
  cases h with
  | @opening shape => cases shape <;> decide
  | @closing shape => cases shape <;> decide
  | decimal h => simpa using hwhole h []
  | fraction h => exact hwhole h _
  | identifier hc =>
    rw [hf] at hc
    simpa using CodePoint.isAscii_of_startsIdentifier hc
  | _ =>
    simp only [List.cons_append, List.head?_cons, Option.mem_some_iff, forall_eq']
    decide

end Lexemes

namespace Cursor

variable {f g : Features} {cursor later : Cursor} {token : Token} {token? : Option Token}

/-- Without Unicode, what comes next is of ASCII. -/
def PlainAhead (f : Features) (cursor : Cursor) : Prop :=
  f.unicode = false → ∀ c ∈ cursor.rest.head?, c.IsAscii

/-- Nothing else comes next where a token is read or the end. -/
theorem plainAhead_of_read (h : cursor.read f = (.ok token?, later)) : cursor.PlainAhead f := by
  intro hf c hc
  cases token? with
  | none =>
    obtain ⟨hblank, -, -⟩ := read_eq_ok_none_iff.mp h
    exact CodePoint.isAscii_of_isBlank (hblank c (List.mem_of_mem_head? hc))
  | some token =>
    obtain @⟨blanks, spelling, rest, lexeme, hrest, hblanks, hspells, -, -⟩ := step_of_read h
    rw [hrest, List.append_assoc, List.head?_append] at hc
    cases blanks with
    | nil =>
      obtain ⟨d, ds, rfl, -⟩ := hspells.exists_cons
      exact hspells.isAscii_head hf c hc
    | cons d ds =>
      obtain rfl := Option.mem_some_iff.mp hc
      exact CodePoint.isAscii_of_isBlank (hblanks _ (List.mem_cons_self))

theorem plainAhead_of_next (h : cursor.next f = (.ok token?, later)) : cursor.PlainAhead f := by
  fun_induction next f cursor with
  | case1 _ _ _ hread => exact plainAhead_of_read hread
  | case2 _ _ _ hread => exact plainAhead_of_read hread
  | case3 => exact plainAhead_of_read h

theorem Step.widen (h : Step f cursor token later) (hle : f.WidensTo g)
    (hlater : later.PlainAhead f) : Step g cursor token later := by
  obtain ⟨hrest, hblanks, h, hends, hfault⟩ := h
  refine .lexeme hrest hblanks (h.widen hle) ?_ hfault
  intro c hc hextends
  exact hends c hc (hextends.narrow hle fun hf => hlater hf c hc)

theorem keeps_widen (hle : f.WidensTo g) (lexeme : Lexeme) : Keeps g lexeme ↔ Keeps f lexeme := by
  rw [Keeps, Keeps, hle.comments_eq]

theorem next_widen (h : cursor.next f = (.ok token?, later)) (hle : f.WidensTo g)
    (hlater : later.PlainAhead f) : cursor.next g = (.ok token?, later) := by
  fun_induction next f cursor with
  | case1 cursor comment middle hread hskip ih =>
    have hstep := (step_of_read hread).widen hle (plainAhead_of_next h)
    have hkeeps : ¬ Keeps g comment.lexeme := by simp [keeps_widen hle, keeps_iff, hskip]
    rw [next_of_not_keeps (read_of_step hstep) hkeeps, ih h]
  | case2 cursor token middle hread hskip =>
    cases h
    have hstep := (step_of_read hread).widen hle hlater
    have hkeeps : Keeps g token.lexeme := by simp [keeps_widen hle, keeps_iff, hskip]
    exact next_of_read (read_of_step hstep) hkeeps
  | case3 cursor hno =>
    cases token? with
    | none =>
      have hread : cursor.read g = (.ok none, later) :=
        read_eq_ok_none_iff.mpr (read_eq_ok_none_iff.mp h)
      rw [next_eq, hread]
    | some token => exact absurd h (hno token later)

/-- An error that comes next would be that of the tokens. -/
theorem plainAhead_of_tokens (h : (cursor.tokens f).error = none) : cursor.PlainAhead f := by
  cases hnext : cursor.next f with
  | mk result later =>
    cases result with
    | error e =>
      rw [tokens_eq, hnext] at h
      cases h
    | ok token? => exact plainAhead_of_next hnext

theorem tokens_widen (h : (cursor.tokens f).error = none) (hle : f.WidensTo g) :
    cursor.tokens g = cursor.tokens f := by
  fun_induction tokens f cursor with
  | case1 => cases h
  | case2 cursor later hnext =>
    have hlater : later.PlainAhead f := by simp [PlainAhead, (rest_of_next_none hnext).1]
    rw [tokens_eq, next_widen hnext hle hlater]
  | case3 cursor token later hnext more =>
    rename_i ih
    rw [tokens_eq, next_widen hnext hle (plainAhead_of_tokens h)]
    simp only [ih h, more]

end Cursor

namespace Source

/-- A source that is read to its end is read to the same tokens where more may be used, and parses
to the same elements or fails with the same error. -/
theorem read_widened {f g : Features} (hle : f.WidensTo g) {source : Source} {tokens : List Token}
    (h : source.tokenize f = .ok tokens) :
    source.tokenize g = .ok tokens ∧ ∀ limit, source.parse g limit = source.parse f limit := by
  obtain ⟨herror, -⟩ := tokenize_eq_ok_iff.mp h
  have htokens := Cursor.tokens_widen herror hle
  constructor
  · rwa [tokenize_eq_ok_iff, htokens, ← tokenize_eq_ok_iff]
  · intro limit
    rw [parse_eq_run, parse_eq_run, htokens]

/-- In a comment and in a string, what is new could stand from the start. -/
theorem parse_widened_from_ascii : (ofText "ab;é[\n(\"\x7bé\" 0x1").parse {} none =
    .error (.unfinished .round ⟨⟨2, 0⟩, ⟨2, 1⟩⟩) := by
  have hwiden : Features.WidensTo { brackets := false, braces := false, unicode := false } {} :=
    ⟨rfl, rfl, nofun, nofun, nofun⟩
  have htokens : (ofText "ab;é[\n(\"\x7bé\" 0x1").tokenize
      { brackets := false, braces := false, unicode := false } =
        .ok [⟨.atom (.identifier "ab"), ⟨⟨1, 0⟩, ⟨1, 2⟩⟩⟩, ⟨.comment ";é[", ⟨⟨1, 2⟩, ⟨1, 5⟩⟩⟩,
          ⟨.opening .round, ⟨⟨2, 0⟩, ⟨2, 1⟩⟩⟩, ⟨.atom (.string false "\x7bé"), ⟨⟨2, 1⟩, ⟨2, 5⟩⟩⟩,
          ⟨.atom (.integer .hexadecimal "1"), ⟨⟨2, 6⟩, ⟨2, 9⟩⟩⟩] := by
    decide +kernel
  rw [(read_widened hwiden htokens).2 none]
  exact parse_eq_error_iff.mpr (by decide +kernel)

end Source
end SExpression
