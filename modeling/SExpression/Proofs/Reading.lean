import Mathlib.Data.List.TakeWhile
import Mathlib.Tactic
import SExpression.Proofs.Grammar

/-! The reader against the lexical grammar: a text is read as a lexeme exactly where it starts
with a spelling of that lexeme that ends there. -/
namespace SExpression
open CodePoint (ofChar)

namespace Found

/-- The lexeme that was read, if nothing went wrong. -/
def lexeme? : Found → Option Lexeme
  | .closed lexeme => some lexeme
  | .run lexeme => some lexeme
  | _ => none

/-- Delimiters, strings and bytes end by themselves. -/
def ofLexeme : Lexeme → Found
  | .opening shape => .closed (.opening shape)
  | .closing shape => .closed (.closing shape)
  | .comment text => .run (.comment text)
  | .atom (.string escaped body) => .closed (.atom (.string escaped body))
  | .atom (.bytes digits) => .closed (.atom (.bytes digits))
  | .atom value => .run (.atom value)

end Found

namespace CodePoint

/-- A delimiter of any shape, whether it is enabled or not. -/
def IsDelimiter (c : CodePoint) : Prop :=
  ∃ shape : Shape, c = shape.opening ∨ c = shape.closing

theorem not_isDelimiter_of_isDigit {c : CodePoint} (h : c.isDigit) : ¬ c.IsDelimiter := by
  rintro ⟨shape, rfl | rfl⟩ <;> cases shape <;> exact absurd h (by decide)

theorem not_isDelimiter_of_startsIdentifier {unicode : Bool} {c : CodePoint}
    (h : c.startsIdentifier unicode) : ¬ c.IsDelimiter := by
  rintro ⟨shape, rfl | rfl⟩ <;> cases shape <;> cases unicode <;> exact absurd h (by decide)

theorem startsIdentifier_of_isDigit {c : CodePoint} (h : c.isDigit) (unicode : Bool) :
    c.startsIdentifier unicode = false := by
  obtain ⟨n, hn⟩ := c
  simp only [isDigit, isBetween, Bool.and_eq_true, decide_eq_true_eq] at h
  obtain ⟨h1, h2⟩ := h
  change 48 ≤ n at h1
  change n ≤ 57 at h2
  interval_cases n <;> cases unicode <;> decide +revert

theorem eq_of_isBlank {c : CodePoint} (h : c.isBlank) : c = ' ' ∨ c = '\t' ∨ c = '\n' := by
  simpa [isBlank, or_assoc] using h

theorem ne_newline_of_not_isBlank {c : CodePoint} (h : ¬ c.isBlank) : c ≠ '\n' := by
  rintro rfl
  exact h (by decide)

theorem isBlank_eq_false_of_isDigit {c : CodePoint} (h : c.isDigit) : c.isBlank = false := by
  by_contra hb
  rcases eq_of_isBlank (Bool.eq_true_of_not_eq_false hb) with rfl | rfl | rfl <;>
    exact absurd h (by decide)

theorem isBlank_eq_false_of_startsIdentifier {unicode : Bool} {c : CodePoint}
    (h : c.startsIdentifier unicode) : c.isBlank = false := by
  by_contra hb
  rcases eq_of_isBlank (Bool.eq_true_of_not_eq_false hb) with rfl | rfl | rfl <;>
    cases unicode <;> exact absurd h (by decide)

end CodePoint

namespace Shape

@[simp] theorem ofOpening?_opening (shape : Shape) : ofOpening? shape.opening = some shape := by
  cases shape <;> decide

@[simp] theorem ofOpening?_closing (shape : Shape) : ofOpening? shape.closing = none := by
  cases shape <;> decide

@[simp] theorem ofClosing?_closing (shape : Shape) : ofClosing? shape.closing = some shape := by
  cases shape <;> decide

theorem ofOpening?_eq_some {c : CodePoint} {shape : Shape} (h : ofOpening? c = some shape) :
    shape.opening = c := by
  simpa using List.find?_some h

theorem ofClosing?_eq_some {c : CodePoint} {shape : Shape} (h : ofClosing? c = some shape) :
    shape.closing = c := by
  simpa using List.find?_some h

theorem ofOpening?_eq_none {c : CodePoint} (h : ¬ c.IsDelimiter) : ofOpening? c = none := by
  simp only [ofOpening?, List.find?_eq_none, decide_eq_true_eq]
  exact fun shape _ hc => h ⟨shape, .inl hc.symm⟩

theorem ofClosing?_eq_none {c : CodePoint} (h : ¬ c.IsDelimiter) : ofClosing? c = none := by
  simp only [ofClosing?, List.find?_eq_none, decide_eq_true_eq]
  exact fun shape _ hc => h ⟨shape, .inr hc.symm⟩

end Shape

theorem takeWhile_append_of_ends {p : CodePoint → Bool} {more rest : Text}
    (h : ∀ c ∈ more, p c) (hrest : ∀ c ∈ rest.head?, ¬ p c) :
    (more ++ rest).takeWhile p = more := by
  rw [List.takeWhile_append_of_pos h]
  cases rest with
  | nil => simp
  | cons c cs => simp [hrest c (by simp)]

theorem dropWhile_append_of_ends {p : CodePoint → Bool} {more rest : Text}
    (h : ∀ c ∈ more, p c) (hrest : ∀ c ∈ rest.head?, ¬ p c) :
    (more ++ rest).dropWhile p = rest := by
  rw [List.dropWhile_append_of_pos h]
  cases rest with
  | nil => simp
  | cons c cs => simp [hrest c (by simp)]

/-- Nothing that a run allows comes after the run. -/
theorem not_of_mem_head?_dropWhile {p : CodePoint → Bool} {cs : Text} :
    ∀ c ∈ (cs.dropWhile p).head?, ¬ p c := by
  intro c hc
  have h := List.head?_dropWhile_not p cs
  rw [Option.mem_def.mp hc] at h
  simpa using h

theorem Whole.eq_cons {whole : Text} (h : Whole whole) :
    ∃ d more, whole = d :: more ∧ d.isDigit := by
  cases h with
  | zero => exact ⟨_, _, rfl, by decide⟩
  | zeroLed => exact ⟨_, _, rfl, by decide⟩
  | positive hd => exact ⟨_, _, rfl, hd⟩

namespace Reading

theorem longest_append {start more rest : Text} {p : CodePoint → Bool} {lexeme : Text → Lexeme}
    (h : ∀ c ∈ more, p c) (hrest : ∀ c ∈ rest.head?, ¬ p c) :
    longest start p (more ++ rest) lexeme = ⟨.run (lexeme more), start ++ more, rest⟩ := by
  simp only [longest, takeWhile_append_of_ends h hrest, dropWhile_append_of_ends h hrest]

theorem splitString_append {body : Text} (h : StringBody body) (rest : Text) :
    splitString (body ++ ofChar '"' :: rest) = some (body, rest) := by
  induction h with
  | nil =>
    rw [splitString.eq_def]
    simp
  | plain hquote hescape _ ih =>
    rw [splitString.eq_def]
    simp [hquote, hescape, ih]
  | escape _ ih =>
    have h : ofChar '\\' ≠ ofChar '"' := by decide
    simp [splitString, h, ih]

theorem stringBody_of_splitString {cs body rest : Text} (h : splitString cs = some (body, rest)) :
    StringBody body := by
  fun_induction splitString cs generalizing body with
  | case1 => cases h
  | case2 cs =>
    cases h
    exact .nil
  | case3 => cases h
  | case4 d ds _ ih =>
    obtain ⟨⟨b, r⟩, hr, hb⟩ := Option.map_eq_some_iff.mp h
    cases hb
    exact .escape (ih hr)
  | case5 c cs hquote hescape ih =>
    obtain ⟨⟨b, r⟩, hr, hb⟩ := Option.map_eq_some_iff.mp h
    cases hb
    exact .plain hquote hescape (ih hr)

theorem splitWhole_append_of_ends {d : CodePoint} {more rest : Text}
    (hd : d = '0' → (more ++ rest).head?.any CodePoint.isDigit)
    (hmore : ∀ c ∈ more, c.isDigit ∨ c = '_') (hrest : ∀ c ∈ rest.head?, ¬ (c.isDigit ∨ c = '_')) :
    splitWhole d (more ++ rest) = (more, rest) := by
  have hmore : ∀ c ∈ more, (c.isDigit || decide (c = '_')) = true := by simpa using hmore
  have hrest : ∀ c ∈ rest.head?, ¬ (c.isDigit || decide (c = '_')) = true := by simpa using hrest
  have hd : (decide (d = '0') && !(more ++ rest).head?.any CodePoint.isDigit) = false := by
    by_cases h : d = '0'
    · rw [hd h, Bool.not_true, Bool.and_false]
    · simp [h]
  simp only [splitWhole, hd, takeWhile_append_of_ends hmore hrest,
    dropWhile_append_of_ends hmore hrest, Bool.false_eq_true, if_false]

/-- A text that starts with a whole number and does not go on with it splits after it, and no
marker stands there. -/
theorem number_whole {d : CodePoint} {more rest : Text} (h : Whole (d :: more))
    (hrest : ∀ c ∈ rest.head?, ¬ ExtendsWhole (d :: more) c) :
    marked? d (more ++ rest) = none ∧ splitWhole d (more ++ rest) = (more, rest) := by
  cases h with
  | zero =>
    simp only [ExtendsWhole, if_true] at hrest
    constructor
    · cases rest with
      | nil => rfl
      | cons c cs =>
        have hc := hrest c (by simp)
        simp_all [marked?]
    · cases rest with
      | nil => rfl
      | cons c cs =>
        have hc := hrest c (by simp)
        simp_all [splitWhole]
  | @zeroLed e more he hmore =>
    have hb : e ≠ 'b' := by rintro rfl; exact absurd he (by decide)
    have hx : e ≠ 'x' := by rintro rfl; exact absurd he (by decide)
    simp only [ExtendsWhole, List.cons.injEq, reduceCtorEq, and_false, if_false] at hrest
    refine ⟨by simp [marked?, hb, hx], ?_⟩
    apply splitWhole_append_of_ends (by simp [he]) _ hrest
    simpa [he] using hmore
  | positive hd hzero hmore =>
    have hlone : d :: more ≠ [ofChar '0'] := by simp [hzero]
    simp only [ExtendsWhole, hlone, if_false] at hrest
    refine ⟨?_, splitWhole_append_of_ends (by simp [hzero]) hmore hrest⟩
    cases more <;> cases rest <;> simp [marked?, hzero]

theorem number_decimal {d : CodePoint} {more rest : Text} (h : Whole (d :: more))
    (hrest : ∀ c ∈ rest.head?, ¬ (ExtendsWhole (d :: more) c ∨ c = '.')) :
    number d (more ++ rest) = ⟨.run (.atom (.integer .decimal (d :: more))), d :: more, rest⟩ := by
  obtain ⟨hmark, hsplit⟩ := number_whole h fun c hc he => hrest c hc (.inl he)
  simp only [number, hmark, hsplit]
  cases rest with
  | nil => rfl
  | cons c cs =>
    have hc : c ≠ '.' := fun he => hrest c (by simp) (.inr he)
    simp [hc]

theorem number_fraction {d : CodePoint} {more part rest : Text} (h : Whole (d :: more))
    (hpart : ∀ c ∈ part, c.isDigit) (hrest : ∀ c ∈ rest.head?, ¬ c.isDigit) :
    number d (more ++ ofChar '.' :: (part ++ rest)) =
      ⟨.run (.atom (.fraction (d :: more) part)), d :: more ++ ofChar '.' :: part, rest⟩ := by
  have hpoint : ∀ c ∈ (ofChar '.' :: (part ++ rest)).head?, ¬ ExtendsWhole (d :: more) c := by
    simp only [List.head?_cons, Option.mem_some_iff, forall_eq', ExtendsWhole]
    split_ifs <;> decide
  obtain ⟨hmark, hsplit⟩ := number_whole h hpoint
  simp only [number, hmark, hsplit, if_true, longest_append hpart hrest]
  simp

theorem number_marked (base : Base) {mark : CodePoint} {digits rest : Text}
    (hmark : base.marker = [ofChar '0', mark]) (h : ∀ c ∈ digits, base.isDigit c ∨ c = '_')
    (hrest : ∀ c ∈ rest.head?, ¬ (base.isDigit c ∨ c = '_')) :
    number '0' (mark :: (digits ++ rest)) =
      ⟨.run (.atom (.integer base digits)), ofChar '0' :: mark :: digits, rest⟩ := by
  have hmarked : marked? '0' (mark :: (digits ++ rest)) = some (base, digits ++ rest) := by
    cases base with
    | binary => cases hmark; rfl
    | decimal => cases hmark
    | hexadecimal => cases hmark; rfl
  simp only [number, hmarked]
  rw [longest_append (by simpa using h) (by simpa using hrest), hmark]
  rfl

section Dispatch

variable (f : Features) {c : CodePoint} (cs : Text)

theorem ofText_opening {shape : Shape} (h : f.admits shape) :
    ofText f shape.opening cs = ⟨.closed (.opening shape), [shape.opening], cs⟩ := by
  simp only [ofText, Shape.ofOpening?_opening, Option.filter_some, h, if_true]

theorem ofText_closing {shape : Shape} (h : f.admits shape) :
    ofText f shape.closing cs = ⟨.closed (.closing shape), [shape.closing], cs⟩ := by
  simp only [ofText, Shape.ofOpening?_closing, Shape.ofClosing?_closing, Option.filter_none,
    Option.filter_some, h, if_true]

theorem ofText_semicolon :
    ofText f ';' cs = longest [ofChar ';'] (· ≠ '\n') cs fun more =>
      .comment (ofChar ';' :: more) := by
  have ho : Shape.ofOpening? ';' = none := by decide
  have hc : Shape.ofClosing? ';' = none := by decide
  simp only [ofText, ho, hc, Option.filter_none, if_true]

theorem ofText_quote : ofText f '"' cs = string '"' cs := by
  have ho : Shape.ofOpening? '"' = none := by decide
  have hc : Shape.ofClosing? '"' = none := by decide
  have hsemicolon : ofChar '"' ≠ ofChar ';' := by decide
  simp only [ofText, ho, hc, Option.filter_none, hsemicolon, if_false, if_true]

theorem ofText_sign (h : f.bytes) : ofText f '#' cs = bytes '#' cs := by
  have ho : Shape.ofOpening? '#' = none := by decide
  have hc : Shape.ofClosing? '#' = none := by decide
  have hsemicolon : ofChar '#' ≠ ofChar ';' := by decide
  have hquote : ofChar '#' ≠ ofChar '"' := by decide
  simp only [ofText, ho, hc, Option.filter_none, hsemicolon, hquote, h, if_false, decide_true,
    Bool.and_true, if_true]

theorem ofText_digit (h : c.isDigit) : ofText f c cs = number c cs := by
  have hd := CodePoint.not_isDelimiter_of_isDigit h
  have hsemicolon : c ≠ ';' := by rintro rfl; exact absurd h (by decide)
  have hquote : c ≠ '"' := by rintro rfl; exact absurd h (by decide)
  have hsign : c ≠ '#' := by rintro rfl; exact absurd h (by decide)
  simp only [ofText, Shape.ofOpening?_eq_none hd, Shape.ofClosing?_eq_none hd, Option.filter_none,
    hsemicolon, hquote, hsign, if_false, decide_false, Bool.and_false, Bool.false_eq_true, h,
    if_true]

theorem ofText_identifier (h : c.startsIdentifier f.unicode) (hsign : f.bytes → c ≠ '#') :
    ofText f c cs = longest [c] (CodePoint.continuesIdentifier f.unicode) cs fun more =>
      .atom (.identifier (c :: more)) := by
  have hd := CodePoint.not_isDelimiter_of_startsIdentifier h
  have hsemicolon : c ≠ ';' := by
    rintro rfl
    cases hu : f.unicode <;> rw [hu] at h <;> exact absurd h (by decide)
  have hquote : c ≠ '"' := by
    rintro rfl
    cases hu : f.unicode <;> rw [hu] at h <;> exact absurd h (by decide)
  have hbytes : (f.bytes && decide (c = '#')) = false := by
    cases hb : f.bytes <;> simp_all
  have hdigit : c.isDigit = false := by
    by_contra hdigit
    simp [CodePoint.startsIdentifier_of_isDigit (Bool.eq_true_of_not_eq_false hdigit)] at h
  simp only [ofText, Shape.ofOpening?_eq_none hd, Shape.ofClosing?_eq_none hd, Option.filter_none,
    hsemicolon, hquote, hbytes, hdigit, h, if_false, Bool.false_eq_true, if_true]

end Dispatch

/-- A text that starts with the spelling of a lexeme that ends there is read as that lexeme. -/
theorem ofText_of_spells {f : Features} {spelling rest : Text} {lexeme : Lexeme}
    (h : Spells f spelling lexeme) (hends : Ends f lexeme rest) :
    ∃ c cs, spelling ++ rest = c :: cs ∧ c.isBlank = false ∧
      ofText f c cs = ⟨.ofLexeme lexeme, spelling, rest⟩ := by
  cases h with
  | @opening shape h =>
    exact ⟨shape.opening, rest, rfl, by cases shape <;> decide, ofText_opening f rest h⟩
  | @closing shape h =>
    exact ⟨shape.closing, rest, rfl, by cases shape <;> decide, ofText_closing f rest h⟩
  | @comment more h =>
    refine ⟨ofChar ';', more ++ rest, rfl, by decide, ?_⟩
    rw [ofText_semicolon, longest_append (by simpa using h) (by simpa [Ends, Extends] using hends)]
    rfl
  | @string body escaped h hescaped =>
    refine ⟨ofChar '"', body ++ ofChar '"' :: rest, by simp, by decide, ?_⟩
    have hcontains : body.contains (ofChar '\\') = escaped := by
      rw [Bool.eq_iff_iff, List.contains_iff_mem, hescaped]
    simp only [ofText_quote, string, splitString_append h, hcontains]
    rfl
  | @bytes digits hf h =>
    refine ⟨ofChar '#', digits ++ ofChar '#' :: rest, by simp, by decide, ?_⟩
    have hsign : ∀ c ∈ (ofChar '#' :: rest).head?, ¬ c.isHexDigit := by
      simp only [List.head?_cons, Option.mem_some_iff, forall_eq']
      decide
    rw [ofText_sign f _ hf, bytes, dropWhile_append_of_ends h hsign,
      takeWhile_append_of_ends h hsign]
    simp [Found.ofLexeme]
  | @binary digits h =>
    refine ⟨ofChar '0', ofChar 'b' :: digits ++ rest, rfl, by decide, ?_⟩
    rw [ofText_digit f _ (by decide)]
    exact number_marked .binary rfl h hends
  | @hexadecimal digits h =>
    refine ⟨ofChar '0', ofChar 'x' :: digits ++ rest, rfl, by decide, ?_⟩
    rw [ofText_digit f _ (by decide)]
    exact number_marked .hexadecimal rfl h hends
  | decimal h =>
    obtain ⟨d, more, rfl, hd⟩ := h.eq_cons
    refine ⟨d, more ++ rest, rfl, CodePoint.isBlank_eq_false_of_isDigit hd, ?_⟩
    rw [ofText_digit f _ hd, number_decimal h hends]
    rfl
  | @fraction whole part h hpart =>
    obtain ⟨d, more, rfl, hd⟩ := h.eq_cons
    refine ⟨d, more ++ ofChar '.' :: (part ++ rest), by simp,
      CodePoint.isBlank_eq_false_of_isDigit hd, ?_⟩
    rw [ofText_digit f _ hd, number_fraction h hpart hends]
    rfl
  | @identifier c more hc hsign h =>
    refine ⟨c, more ++ rest, rfl, CodePoint.isBlank_eq_false_of_startsIdentifier hc, ?_⟩
    rw [ofText_identifier f _ hc hsign, longest_append h hends]
    rfl

/-- Whatever lexeme the reading yields, the text starts with a spelling of it that ends there. -/
def IsSound (f : Features) (r : Reading) : Prop :=
  ∀ lexeme, r.found.lexeme? = some lexeme →
    r.found = .ofLexeme lexeme ∧ Spells f r.taken lexeme ∧ Ends f lexeme r.rest

theorem isSound_of_spells {f : Features} {taken rest : Text} {lexeme : Lexeme} {found : Found}
    (hfound : found = .ofLexeme lexeme) (h : Spells f taken lexeme) (hends : Ends f lexeme rest) :
    IsSound f ⟨found, taken, rest⟩ := by
  intro other hother
  have heq : other = lexeme := by
    subst hfound
    cases h <;> exact (Option.some.inj hother).symm
  subst heq
  exact ⟨hfound, h, hends⟩

theorem isSound_longest {f : Features} {start cs : Text} {p : CodePoint → Bool}
    {lexeme : Text → Lexeme}
    (h : ∀ more, (∀ c ∈ more, p c) → .run (lexeme more) = Found.ofLexeme (lexeme more) ∧
      Spells f (start ++ more) (lexeme more) ∧ ∀ c, Extends f (lexeme more) c → p c) :
    IsSound f (longest start p cs lexeme) := by
  obtain ⟨hfound, hspells, hextends⟩ := h (cs.takeWhile p) fun c hc => List.mem_takeWhile_imp hc
  apply isSound_of_spells hfound hspells
  exact fun c hc he => not_of_mem_head?_dropWhile c hc (hextends c he)

theorem isSound_string (f : Features) (cs : Text) : IsSound f (string '"' cs) := by
  unfold string
  split
  · intro lexeme h
    cases h
  next body rest h =>
    apply isSound_of_spells rfl (.string (stringBody_of_splitString h) (by simp))
    simp [Ends, Extends]

theorem isSound_bytes {f : Features} (hf : f.bytes) (cs : Text) : IsSound f (bytes '#' cs) := by
  unfold bytes
  split
  · intro lexeme h
    cases h
  next c rest h =>
    split_ifs with hc
    · subst hc
      apply isSound_of_spells rfl (.bytes hf fun c hc => List.mem_takeWhile_imp hc)
      simp [Ends, Extends]
    · intro lexeme h
      cases h

/-- The digits before a fraction mark make up a whole number that ends there. -/
theorem whole_splitWhole {d : CodePoint} {cs : Text} (hd : d.isDigit)
    (hmark : marked? d cs = none) :
    Whole (d :: (splitWhole d cs).1) ∧
      ∀ c ∈ (splitWhole d cs).2.head?, ¬ ExtendsWhole (d :: (splitWhole d cs).1) c := by
  by_cases hlone : d = '0' ∧ ¬ cs.head?.any CodePoint.isDigit
  · obtain ⟨rfl, hcs⟩ := hlone
    have hsplit : splitWhole '0' cs = ([], cs) := by simp [splitWhole, hcs]
    rw [hsplit]
    refine ⟨.zero, ?_⟩
    cases cs with
    | nil => simp
    | cons c cs =>
      simp only [List.head?_cons, Option.any_some] at hcs
      simp only [List.head?_cons, Option.mem_some_iff, forall_eq', ExtendsWhole, if_true]
      rintro (rfl | rfl | hc)
      · cases hmark
      · cases hmark
      · exact hcs hc
  · let p := fun c : CodePoint => c.isDigit || decide (c = '_')
    have hsplit : splitWhole d cs = (cs.takeWhile p, cs.dropWhile p) := by
      unfold splitWhole
      rw [if_neg (by simpa using hlone)]
    have hmore : ∀ c ∈ cs.takeWhile p, c.isDigit ∨ c = '_' := fun c hc => by
      simpa [p] using List.mem_takeWhile_imp hc
    have hend : ∀ c ∈ (cs.dropWhile p).head?, ¬ (c.isDigit ∨ c = '_') := fun c hc => by
      simpa [p] using not_of_mem_head?_dropWhile c hc
    rw [hsplit]
    by_cases hzero : d = '0'
    · -- A digit comes next, so that the zero does not stand alone.
      obtain ⟨e, hcs, he⟩ := (Option.any_eq_true _ _).mp (by simpa [hzero] using hlone)
      obtain ⟨es, rfl⟩ := List.head?_eq_some_iff.mp hcs
      have hp : p e := by simp [p, he]
      simp only [List.takeWhile_cons_of_pos hp, List.dropWhile_cons_of_pos hp] at hmore hend ⊢
      subst hzero
      refine ⟨.zeroLed he fun c hc => hmore c (by simp [hc]), ?_⟩
      simpa [ExtendsWhole] using hend
    · refine ⟨.positive hd hzero hmore, ?_⟩
      simpa [ExtendsWhole, hzero] using hend

theorem isSound_number {f : Features} {d : CodePoint} (hd : d.isDigit) (cs : Text) :
    IsSound f (number d cs) := by
  unfold number
  split
  next base rest hmark =>
    obtain ⟨rfl, hbase⟩ : d = '0' ∧ base ≠ .decimal := by
      cases cs <;> simp only [marked?] at hmark
      · cases hmark
      · split_ifs at hmark <;> cases hmark <;> simp_all
    apply isSound_longest
    intro more h
    have h : ∀ c ∈ more, base.isDigit c ∨ c = '_' := by simpa using h
    cases base with
    | binary => exact ⟨rfl, .binary h, by simp [Extends, Base.isDigit]⟩
    | decimal => exact absurd rfl hbase
    | hexadecimal => exact ⟨rfl, .hexadecimal h, by simp [Extends, Base.isDigit]⟩
  next hmark =>
    obtain ⟨hwhole, hrest⟩ := whole_splitWhole hd hmark
    split
    next => exact isSound_of_spells rfl (.decimal hwhole) (by simp [Ends])
    next c rest hsplit =>
      rw [hsplit] at hrest
      split_ifs with hpoint
      · subst hpoint
        apply isSound_longest
        intro part hpart
        refine ⟨rfl, ?_, fun c hc => hc⟩
        simpa using Spells.fraction (f := f) hwhole hpart
      · apply isSound_of_spells rfl (.decimal hwhole)
        simpa [Ends, Extends, hpoint] using hrest

theorem isSound_ofText (f : Features) (c : CodePoint) (cs : Text) : IsSound f (ofText f c cs) := by
  unfold ofText
  split
  next shape _ ho =>
    obtain ⟨ho, hf⟩ := Option.filter_eq_some_iff.mp ho
    obtain rfl := Shape.ofOpening?_eq_some ho
    exact isSound_of_spells rfl (.opening hf) (by simp [Ends, Extends])
  next shape _ hc =>
    obtain ⟨hc, hf⟩ := Option.filter_eq_some_iff.mp hc
    obtain rfl := Shape.ofClosing?_eq_some hc
    exact isSound_of_spells rfl (.closing hf) (by simp [Ends, Extends])
  · split_ifs with hsemicolon hquote hbytes hdigit hstart
    · subst hsemicolon
      exact isSound_longest fun more h => ⟨rfl, .comment (by simpa using h), by simp [Extends]⟩
    · subst hquote
      exact isSound_string f cs
    · obtain ⟨hf, rfl⟩ := by simpa using hbytes
      exact isSound_bytes hf cs
    · exact isSound_number hdigit cs
    · exact isSound_longest fun more h =>
        ⟨rfl, .identifier hstart (by simpa using hbytes) h, fun c hc => hc⟩
    · intro lexeme h
      cases h

end Reading

theorem Spells.exists_cons {f : Features} {text : Text} {lexeme : Lexeme}
    (h : Spells f text lexeme) : ∃ c cs, text = c :: cs ∧ c.isBlank = false := by
  have hends : Ends f lexeme [] := by simp [Ends]
  obtain ⟨c, cs, hcons, hblank, -⟩ := Reading.ofText_of_spells h hends
  rw [List.append_nil] at hcons
  exact ⟨c, cs, hcons, hblank⟩

theorem Spells.ne_nil {f : Features} {text : Text} {lexeme : Lexeme} (h : Spells f text lexeme) :
    text ≠ [] := by
  obtain ⟨c, cs, rfl, -⟩ := h.exists_cons
  exact List.cons_ne_nil c cs

end SExpression
