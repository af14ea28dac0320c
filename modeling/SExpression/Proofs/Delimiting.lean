import SExpression.Atom.Unsigned
import SExpression.Dump
import SExpression.Proofs.Reading

/-! What dumps show ends by itself: a number before what is no digit, quoted text before anything.
Two of them with something behind them are the same where the whole is, and so is what follows. -/
namespace SExpression
open CodePoint (ofChar)

namespace Text

theorem append_inj_of_ends {p : CodePoint → Bool} {a b r s : Text} (ha : ∀ c ∈ a, p c)
    (hb : ∀ c ∈ b, p c) (hr : ∀ c ∈ r.head?, ¬ p c) (hs : ∀ c ∈ s.head?, ¬ p c)
    (h : a ++ r = b ++ s) : a = b ∧ r = s := by
  have htake := congrArg (List.takeWhile p) h
  have hdrop := congrArg (List.dropWhile p) h
  rw [takeWhile_append_of_ends ha hr, takeWhile_append_of_ends hb hs] at htake
  rw [dropWhile_append_of_ends ha hr, dropWhile_append_of_ends hb hs] at hdrop
  exact ⟨htake, hdrop⟩

/-- No digit goes on with a number that the text comes behind. -/
def EndsNumber (text : Text) : Prop :=
  ∀ c ∈ text.head?, ¬ c.isDigit

theorem endsNumber_cons {c : CodePoint} (hc : ¬ c.isDigit) (r : Text) : EndsNumber (c :: r) := by
  intro d hd
  rwa [← Option.some.inj hd]

theorem isDigit_of_mem_ofNat (n : ℕ) : ∀ c ∈ ofNat n, c.isDigit := by
  intro c hc
  obtain ⟨d, hd, rfl⟩ := List.mem_map.mp hc
  obtain ⟨hlow, hhigh⟩ : 48 ≤ d.toNat ∧ d.toNat ≤ 57 := by
    simpa [Char.isDigit, UInt32.le_iff_toNat_le] using
      Nat.isDigit_of_mem_toDigits (by decide) le_rfl hd
  exact Bool.and_eq_true_iff.mpr ⟨decide_eq_true hlow, decide_eq_true hhigh⟩

theorem ofNat_injective : Function.Injective ofNat := by
  have hchar : Function.Injective ofChar := fun c d h =>
    Char.toNat_inj.mp (congrArg CodePoint.value h)
  have hdigits : Function.LeftInverse (fun cs => Nat.ofDigitChars 10 cs 0) (Nat.toDigits 10) :=
    fun n => Nat.ofDigitChars_ten_toDigits
  exact (List.map_injective_iff.mpr hchar).comp hdigits.injective

theorem exists_ofNat_eq_cons (n : ℕ) : ∃ d more, ofNat n = d :: more ∧ d.isDigit := by
  have hdigits := isDigit_of_mem_ofNat n
  have hne : ofNat n ≠ [] := by simp [ofNat, Nat.toDigits_ne_nil]
  obtain ⟨d, more, hcons⟩ := List.exists_cons_of_ne_nil hne
  exact ⟨d, more, hcons, hdigits d (by simp [hcons])⟩

theorem ofNat_append_inj {m n : ℕ} {r s : Text} (hr : r.EndsNumber) (hs : s.EndsNumber)
    (h : ofNat m ++ r = ofNat n ++ s) : m = n ∧ r = s := by
  obtain ⟨hnumber, hrest⟩ :=
    append_inj_of_ends (isDigit_of_mem_ofNat m) (isDigit_of_mem_ofNat n) hr hs h
  exact ⟨ofNat_injective hnumber, hrest⟩

theorem ofInt_append_inj {m n : ℤ} {r s : Text} (hr : r.EndsNumber) (hs : s.EndsNumber)
    (h : ofInt m ++ r = ofInt n ++ s) : m = n ∧ r = s := by
  -- A number that starts with a digit has no sign.
  have hsign (n : ℕ) (r s : Text) : ofNat n ++ r ≠ ofChar '-' :: s := by
    obtain ⟨d, more, hcons, hd⟩ := exists_ofNat_eq_cons n
    rintro heq
    rw [hcons] at heq
    rw [(List.cons.inj heq).1] at hd
    exact absurd hd (by decide)
  cases m with
  | ofNat m =>
    cases n with
    | ofNat n =>
      obtain ⟨rfl, hrest⟩ := ofNat_append_inj hr hs h
      exact ⟨rfl, hrest⟩
    | negSucc n => exact absurd h (hsign _ _ _)
  | negSucc m =>
    cases n with
    | ofNat n => exact absurd h.symm (hsign _ _ _)
    | negSucc n =>
      obtain ⟨hmn, hrest⟩ := ofNat_append_inj hr hs (List.cons.inj h).2
      exact ⟨by omega, hrest⟩

/-- The digits show a number that is not too large for them. -/
theorem digitsValue_hexOfNat {width n : ℕ} (h : n < 16 ^ width) :
    Atom.digitsValue .hexadecimal (hexOfNat width n) = n := by
  induction width generalizing n with
  | zero =>
    obtain rfl : n = 0 := by simpa using h
    rfl
  | succ width ih =>
    have hdigit : ∀ d < 16, (ofChar (Nat.digitChar d)).digitValue = d := by decide
    have hdiv : n / 16 < 16 ^ width := by omega
    have hrest := ih hdiv
    rw [Atom.digitsValue] at hrest
    rw [hexOfNat, Atom.digitsValue, List.foldl_append, hrest, List.foldl_cons, List.foldl_nil,
      hdigit _ (Nat.mod_lt n (by decide))]
    exact Nat.div_add_mod' n 16

/-- How many hexadecimal digits follow the letter in an escape. -/
def escapeWidth? (letter : CodePoint) : Option ℕ :=
  if letter = 'x' then some 2
  else if letter = 'u' then some 4
  else if letter = 'U' then some 8
  else none

/-- The value of the code point that is shown at the start of the text, and what follows. -/
def unescape? : Text → Option (ℕ × Text)
  | [] => none
  | c :: cs =>
    if c = '\\' then
      match cs with
      | [] => none
      | d :: ds =>
        match escapeWidth? d with
        | some width => some (Atom.digitsValue .hexadecimal (ds.take width), ds.drop width)
        | none =>
          if d = 'n' then some (10, ds)
          else if d = 'r' then some (13, ds)
          else if d = 't' then some (9, ds)
          else some (d.value, ds)
    else some (c.value, cs)

theorem unescape?_code {letter : Char} {width n : ℕ} (hletter : escapeWidth? letter = some width)
    (hn : n < 16 ^ width) (r : Text) :
    unescape? ([ofChar '\\', ofChar letter] ++ hexOfNat width n ++ r) = some (n, r) := by
  have hlength : (hexOfNat width n).length = width := length_hexOfNat width n
  simp [unescape?, hletter, hlength, digitsValue_hexOfNat hn]

/-- What the quotes around a text can be. -/
def IsQuote (quote : CodePoint) : Prop :=
  quote = '\'' ∨ quote = '"'

theorem isQuote_quoteFor (text : Text) : IsQuote text.quoteFor := by
  unfold quoteFor
  split
  · exact .inr rfl
  · exact .inl rfl

/-- What is escaped is read back, whatever comes behind it. -/
theorem unescape?_escape {quote : CodePoint} (hquote : IsQuote quote) (c : CodePoint) (r : Text) :
    unescape? (escape quote c ++ r) = some (c.value, r) := by
  unfold escape
  split_ifs with hself hnewline hreturn htab hprintable hbyte hshort
  · rcases hself with rfl | rfl
    · rcases hquote with rfl | rfl <;> rfl
    · rfl
  · rw [hnewline]
    rfl
  · rw [hreturn]
    rfl
  · rw [htab]
    rfl
  · simp [unescape?, (not_or.mp hself).2]
  · exact unescape?_code rfl hbyte r
  · exact unescape?_code rfl hshort r
  · exact unescape?_code rfl (c.value_lt.trans (by decide)) r

theorem escape_append_inj {quote c d : CodePoint} {r s : Text} (hquote : IsQuote quote)
    (h : escape quote c ++ r = escape quote d ++ s) : c = d ∧ r = s := by
  have hread := congrArg unescape? h
  rw [unescape?_escape hquote, unescape?_escape hquote] at hread
  obtain ⟨hvalue, hrest⟩ := Prod.mk.inj (Option.some.inj hread)
  exact ⟨CodePoint.ext hvalue, hrest⟩

/-- Nothing between the quotes looks like the quote at the end. -/
theorem escape_append_ne {quote c : CodePoint} (hquote : IsQuote quote) (r s : Text) :
    escape quote c ++ r ≠ quote :: s := by
  have hbackslash : ofChar '\\' ≠ quote := by
    rcases hquote with rfl | rfl <;> decide
  intro h
  have hhead := congrArg List.head? h
  unfold escape at hhead
  split_ifs at hhead with hself hnewline hreturn htab hprintable hbyte hshort
  · exact hbackslash (Option.some.inj hhead)
  · exact hbackslash (Option.some.inj hhead)
  · exact hbackslash (Option.some.inj hhead)
  · exact hbackslash (Option.some.inj hhead)
  · exact hself (.inl (Option.some.inj hhead))
  · exact hbackslash (Option.some.inj hhead)
  · exact hbackslash (Option.some.inj hhead)
  · exact hbackslash (Option.some.inj hhead)

theorem escaped_append_inj {quote : CodePoint} (hquote : IsQuote quote) {x y r s : Text}
    (h : x.flatMap (escape quote) ++ quote :: r = y.flatMap (escape quote) ++ quote :: s) :
    x = y ∧ r = s := by
  induction x generalizing y with
  | nil =>
    cases y with
    | nil => exact ⟨rfl, (List.cons.inj h).2⟩
    | cons d y =>
      rw [List.flatMap_cons, List.append_assoc] at h
      exact absurd h.symm (escape_append_ne hquote _ r)
  | cons c x ih =>
    rw [List.flatMap_cons, List.append_assoc] at h
    cases y with
    | nil => exact absurd h (escape_append_ne hquote _ s)
    | cons d y =>
      rw [List.flatMap_cons, List.append_assoc] at h
      obtain ⟨rfl, hlater⟩ := escape_append_inj hquote h
      obtain ⟨rfl, hrest⟩ := ih hlater
      exact ⟨rfl, hrest⟩

/-- Quoted text is told by its quotes, whatever it holds and whatever comes behind it. -/
theorem quoted_append_inj {x y r s : Text} (h : x.quoted ++ r = y.quoted ++ s) : x = y ∧ r = s := by
  simp only [quoted, List.cons_append, List.append_assoc] at h
  obtain ⟨hquote, hrest⟩ := List.cons.inj h
  rw [← hquote] at hrest
  exact escaped_append_inj (isQuote_quoteFor x) hrest

theorem quoted_injective : Function.Injective quoted := by
  intro x y h
  exact (quoted_append_inj (congrArg (· ++ []) h)).1

end Text

open Text

theorem Position.text_append_inj {p q : Position} {r s : Text} (hr : r.EndsNumber)
    (hs : s.EndsNumber) (h : p.text ++ r = q.text ++ s) : p = q ∧ r = s := by
  have hcolon (text : Text) : EndsNumber (ofString ":" ++ text) :=
    endsNumber_cons (by decide) text
  simp only [text, List.append_assoc] at h
  obtain ⟨hline, hlater⟩ := ofInt_append_inj (hcolon _) (hcolon _) h
  obtain ⟨hcolumn, hrest⟩ := ofInt_append_inj hr hs (List.append_cancel_left hlater)
  obtain ⟨line, column⟩ := p
  exact ⟨congrArg₂ mk hline hcolumn, hrest⟩

theorem Span.text_append_inj {a b : Span} {r s : Text} (hr : r.EndsNumber)
    (hs : s.EndsNumber) (h : a.text ++ r = b.text ++ s) : a = b ∧ r = s := by
  have hdash (text : Text) : EndsNumber (ofString "-" ++ text) :=
    endsNumber_cons (by decide) text
  simp only [text, List.append_assoc] at h
  obtain ⟨hstart, hlater⟩ := Position.text_append_inj (hdash _) (hdash _) h
  obtain ⟨hstop, hrest⟩ := Position.text_append_inj hr hs (List.append_cancel_left hlater)
  obtain ⟨start, stop⟩ := a
  exact ⟨congrArg₂ mk hstart hstop, hrest⟩

theorem Span.text_injective : Function.Injective Span.text := by
  intro a b h
  have hend : EndsNumber [] := by simp [EndsNumber]
  exact (Span.text_append_inj hend hend (congrArg (· ++ []) h)).1

theorem Base.radix_injective : Function.Injective Base.radix := by
  intro a b
  cases a <;> cases b <;> decide

namespace Atom

theorem describe_append_inj {a b : Atom} {r s : Text} (h : a.describe ++ r = b.describe ++ s) :
    a = b ∧ r = s := by
  have hcomma (text : Text) : EndsNumber (ofString ", " ++ text) :=
    endsNumber_cons (by decide) _
  cases a with
  | integer base digits =>
    cases b with
    | integer base' digits' =>
      simp only [describe, List.append_assoc, List.append_cancel_left_eq] at h
      obtain ⟨hradix, hlater⟩ := ofNat_append_inj (hcomma _) (hcomma _) h
      obtain ⟨hdigits, hrest⟩ := quoted_append_inj (List.append_cancel_left hlater)
      have hbase := Base.radix_injective hradix
      exact ⟨congrArg₂ integer hbase hdigits, List.append_cancel_left hrest⟩
    | _ => simp [describe, ofString, ofChar] at h
  | fraction whole part =>
    cases b with
    | fraction whole' part' =>
      simp only [describe, List.append_assoc, List.append_cancel_left_eq] at h
      obtain ⟨hwhole, hlater⟩ := quoted_append_inj h
      obtain ⟨hpart, hrest⟩ := quoted_append_inj (List.append_cancel_left hlater)
      exact ⟨congrArg₂ fraction hwhole hpart, List.append_cancel_left hrest⟩
    | _ => simp [describe, ofString, ofChar] at h
  | bytes digits =>
    cases b with
    | bytes digits' =>
      simp only [describe, List.append_assoc, List.append_cancel_left_eq] at h
      obtain ⟨hdigits, hrest⟩ := quoted_append_inj h
      exact ⟨congrArg bytes hdigits, List.append_cancel_left hrest⟩
    | _ => simp [describe, ofString, ofChar] at h
  | string escaped body =>
    cases b with
    | string escaped' body' =>
      simp only [describe, List.append_assoc, List.append_cancel_left_eq] at h
      obtain ⟨rfl, hlater⟩ := quoted_append_inj h
      -- What comes next tells whether there are escapes.
      cases escaped <;> cases escaped'
      case false.false => exact ⟨rfl, List.append_cancel_left hlater⟩
      case true.true =>
        exact ⟨rfl, List.append_cancel_left (List.append_cancel_left hlater)⟩
      all_goals simp [ofString, ofChar] at hlater
    | _ => simp [describe, ofString, ofChar] at h
  | identifier name =>
    cases b with
    | identifier name' =>
      simp only [describe, List.append_assoc, List.append_cancel_left_eq] at h
      obtain ⟨hname, hrest⟩ := quoted_append_inj h
      exact ⟨congrArg identifier hname, List.append_cancel_left hrest⟩
    | _ => simp [describe, ofString, ofChar] at h

theorem describe_injective : Function.Injective describe := by
  intro a b h
  exact (describe_append_inj (congrArg (· ++ []) h)).1

end Atom
end SExpression
