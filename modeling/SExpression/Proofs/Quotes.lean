import Mathlib.Algebra.Ring.Parity
import Mathlib.Order.Bounds.Basic
import SExpression.Proofs.Concatenation

/-! Strings end at the right quote: read from the left, a backslash takes along what follows it;
seen from a quote, the backslashes before it tell by their parity whether it is taken along. -/
namespace SExpression
open CodePoint (ofChar)

namespace Text

variable {text : Text} {c : CodePoint} {n : ℕ}

/-- How many backslashes the text ends in. -/
def backslashes (text : Text) : ℕ :=
  (text.rtakeWhile (· = ofChar '\\')).length

/-- In what follows an opening quote, the quote at the offset closes the string: there are evenly
many backslashes right before it. -/
def ClosesAt (text : Text) (n : ℕ) : Prop :=
  text[n]? = some (ofChar '"') ∧ Even (backslashes (text.take n))

instance (text : Text) (n : ℕ) : Decidable (text.ClosesAt n) :=
  inferInstanceAs (Decidable (_ ∧ _))

theorem backslashes_of_forall (h : ∀ d ∈ text, d = ofChar '\\') :
    text.backslashes = text.length := by
  rw [backslashes, List.rtakeWhile_eq_self_iff.mpr (by simpa using h)]

/-- What comes first does not count where another than a backslash comes after it. -/
theorem backslashes_cons (c : CodePoint) (h : ∃ d ∈ text, d ≠ ofChar '\\') :
    backslashes (c :: text) = backslashes text := by
  have hstop : ¬ ∀ d ∈ text.reverse, decide (d = ofChar '\\') := by simpa using h
  rw [backslashes, backslashes, List.rtakeWhile, List.rtakeWhile, List.reverse_cons,
    List.takeWhile_append, if_neg]
  intro hlen
  exact hstop (List.takeWhile_eq_self_iff.mp ((List.takeWhile_sublist _).eq_of_length hlen))

theorem backslashes_cons_of_ne (h : c ≠ '\\') (text : Text) :
    backslashes (c :: text) = backslashes text := by
  by_cases hall : ∀ d ∈ text, d = ofChar '\\'
  · have hreverse : ∀ d ∈ text.reverse, decide (d = ofChar '\\') := by simpa using hall
    rw [backslashes, List.rtakeWhile, List.reverse_cons, List.takeWhile_append_of_pos hreverse,
      List.takeWhile_cons_of_neg (by simpa using h)]
    simp [backslashes_of_forall hall]
  · exact backslashes_cons c (by simpa using hall)

/-- A backslash and what it takes along do not change the parity behind them. -/
theorem even_backslashes_escape (c : CodePoint) (text : Text) :
    Even (backslashes (ofChar '\\' :: c :: text)) ↔ Even text.backslashes := by
  by_cases hc : c = '\\'
  · by_cases hall : ∀ d ∈ text, d = ofChar '\\'
    · rw [backslashes_of_forall (by simpa [hc] using hall), backslashes_of_forall hall]
      simp [Nat.even_add_one]
    · have hex : ∃ d ∈ text, d ≠ ofChar '\\' := by simpa using hall
      rw [backslashes_cons _ (by simp [hex]), backslashes_cons _ hex]
  · rw [backslashes_cons _ ⟨c, by simp, hc⟩, backslashes_cons_of_ne hc]

theorem closesAt_cons_of_ne (h : c ≠ '\\') : ClosesAt (c :: text) (n + 1) ↔ text.ClosesAt n := by
  simp only [ClosesAt, List.getElem?_cons_succ, List.take_succ_cons, backslashes_cons_of_ne h]

theorem closesAt_escape : ClosesAt (ofChar '\\' :: c :: text) (n + 2) ↔ text.ClosesAt n := by
  simp only [ClosesAt, List.getElem?_cons_succ, List.take_succ_cons, even_backslashes_escape]

/-- Neither a backslash nor what comes right after it closes a string. -/
theorem not_closesAt_escape (h : n < 2) (text : Text) : ¬ ClosesAt (ofChar '\\' :: text) n := by
  rintro ⟨hquote, heven⟩
  interval_cases n
  · exact absurd hquote (by simp; decide)
  · exact absurd heven (by rw [List.take_succ_cons, List.take_zero]; decide)

end Text

open Text

/-- The body of a string as it looks from its quotes: none in it closes the string, and one behind
it does. -/
theorem stringBody_iff {body : Text} :
    StringBody body ↔ Even body.backslashes ∧ ∀ n, ¬ body.ClosesAt n := by
  constructor
  · intro h
    induction h with
    | nil => exact ⟨by decide, fun n hn => by simp [ClosesAt] at hn⟩
    | @plain c body hquote hescape _ ih =>
      refine ⟨by rw [backslashes_cons_of_ne hescape]; exact ih.1, fun n hn => ?_⟩
      cases n with
      | zero => exact hquote (by simpa using hn.1)
      | succ n => exact ih.2 n ((closesAt_cons_of_ne hescape).mp hn)
    | @escape c body _ ih =>
      refine ⟨(even_backslashes_escape c body).mpr ih.1, fun n hn => ?_⟩
      match n with
      | 0 => exact not_closesAt_escape (by decide) _ hn
      | 1 => exact not_closesAt_escape (by decide) _ hn
      | n + 2 => exact ih.2 n (closesAt_escape.mp hn)
  · rintro ⟨heven, hno⟩
    induction body using Reading.splitString.induct with
    | case1 => exact .nil
    | case2 cs => exact absurd ⟨rfl, by rw [List.take_zero]; decide⟩ (hno 0)
    | case3 => exact absurd heven (by decide)
    | case4 d ds _ ih =>
      refine .escape (ih ((even_backslashes_escape d ds).mp heven) fun n hn => ?_)
      exact hno (n + 2) (closesAt_escape.mpr hn)
    | case5 c cs hquote hescape ih =>
      rw [backslashes_cons_of_ne hescape] at heven
      refine .plain hquote hescape (ih heven fun n hn => ?_)
      exact hno (n + 1) ((closesAt_cons_of_ne hescape).mpr hn)

namespace Reading

variable {text : Text} {n : ℕ}

/-- Up to the first quote that closes the string, its body is whole. -/
theorem exists_stringBody_of_isLeast (h : IsLeast {n | text.ClosesAt n} n) :
    ∃ body rest, text = body ++ ofChar '"' :: rest ∧ body.length = n ∧ StringBody body := by
  obtain ⟨hcloses, hleast⟩ := h
  obtain ⟨hn, hquote⟩ := List.getElem?_eq_some_iff.mp hcloses.1
  refine ⟨text.take n, text.drop (n + 1), ?_, List.length_take_of_le hn.le, ?_⟩
  · rw [← hquote, ← List.drop_eq_getElem_cons hn, List.take_append_drop]
  · refine stringBody_iff.mpr ⟨hcloses.2, fun m hm => ?_⟩
    have hlt : m < n := by
      by_contra hge
      simp [ClosesAt, List.getElem?_take_eq_none (Nat.not_lt.mp hge)] at hm
    have hm' : text.ClosesAt m := by
      rw [ClosesAt, List.getElem?_take_of_lt hlt, List.take_take, Nat.min_eq_left hlt.le] at hm
      exact hm
    exact absurd (hleast hm') (Nat.not_le.mpr hlt)

theorem splitString_of_not_closesAt (h : ∀ n, ¬ text.ClosesAt n) : splitString text = none := by
  cases hsplit : splitString text with
  | none => rfl
  | some parts =>
    obtain ⟨body, rest⟩ := parts
    have hbody := stringBody_of_splitString hsplit
    obtain rfl := splitString_eq_some hsplit
    refine absurd ⟨by simp, ?_⟩ (h body.length)
    rw [List.take_left]
    exact (stringBody_iff.mp hbody).1

end Reading

namespace Cursor

variable {f : Features} {cursor start : Cursor} {text : Text} {n : ℕ}

/-- What is skipped before a token does not count. -/
theorem next_of_skipped {gap : Text} (hgap : Skipped f false gap)
    (hpass : cursor.Passes gap start) : cursor.next f = start.next f := by
  induction hgap generalizing cursor with
  | @blank blanks hblanks =>
    rw [next_eq f cursor, next_eq f start, hpass.2, read_pass_blanks f hpass.1 hblanks]
  | @comment blanks more rest hf hblanks hmore _ ih =>
    have hrest : cursor.rest =
        blanks ++ (ofChar ';' :: more) ++ (ofChar '\n' :: rest ++ start.rest) := by
      rw [hpass.1]
      simp only [List.append_assoc]
    have hcomment : Spells f (ofChar ';' :: more) (.comment (ofChar ';' :: more)) :=
      .comment fun c hc hnewline => hmore (hnewline ▸ hc)
    have hstep := read_of_step (.lexeme hrest hblanks hcomment (by simp [Ends, Extends]) (by simp))
    rw [next_of_not_keeps hstep (by simp [keeps_iff, hf, Lexeme.isComment])]
    apply ih
    refine ⟨rfl, ?_⟩
    rw [pass_pass]
    exact hpass.2
  | lastComment hend => cases hend

/-- Where a string starts, it is the next token. -/
theorem next_of_stringBody {body rest : Text} (hbody : StringBody body)
    (hrest : start.rest = ofChar '"' :: body ++ ofChar '"' :: rest) :
    start.next f = (.ok (some ⟨.atom (.string (ofChar '\\' ∈ body) body), start.position,
      start.position.advanceOver (ofChar '"' :: body ++ [ofChar '"'])⟩),
      start.pass (ofChar '"' :: body ++ [ofChar '"']) rest) := by
  have hwhole : start.rest = [] ++ (ofChar '"' :: body ++ [ofChar '"']) ++ rest := by
    rw [hrest]
    simp
  have hspells : Spells f (ofChar '"' :: body ++ [ofChar '"'])
      (.atom (.string (ofChar '\\' ∈ body) body)) :=
    .string hbody (by simp)
  have hread := read_of_step (.lexeme hwhole (by simp) hspells (by simp [Ends, Extends])
    fun _ => .inr rfl)
  exact next_of_read hread (by simp [Keeps, Lexeme.isComment])

/-- A string that no quote closes takes up all that is left. -/
theorem next_of_not_closesAt (hrest : start.rest = ofChar '"' :: text) (hfault : start.fault = none)
    (h : ∀ n, ¬ text.ClosesAt n) :
    start.next f = (.error (.unterminatedString start.position
      (start.position.advanceOver (ofChar '"' :: text))), start.pass (ofChar '"' :: text) []) := by
  have hskip : start.skipBlanks = start.pass [] (ofChar '"' :: text) :=
    skipBlanks_eq hrest (by simp) (by simp; decide)
  have hstring : Reading.ofText f '"' text = ⟨.unclosedString, ofChar '"' :: text, []⟩ := by
    rw [Reading.ofText_quote, Reading.string, Reading.splitString_of_not_closesAt h]
  have hblocked : (start.pass (ofChar '"' :: text) []).blocked? = none :=
    blocked?_eq_none_iff.mpr fun _ => hfault
  have hread := read_of_skipBlanks_cons (f := f) (by rw [hskip, rest_pass]) hstring
  simp only [hskip, pass_pass, List.nil_append, judge, hblocked, Option.getD_none] at hread
  rw [next_eq, hread]
  rfl

end Cursor

namespace Source

/-- Where a lexeme starts with a quote and all that comes after it decodes, it is the string up to
the first quote behind evenly many backslashes; where there is none, reading comes to the end. -/
theorem string_ends_at_first_closing_quote {source : Source} {f : Features} {limit : Option ℤ}
    {requests : List Request} {before after gap : Text}
    (hdecode : Utf8.decode source.bytes = { text := before ++ ofChar '"' :: after })
    (hgap : Skipped f false gap)
    (hstart : (source.cursor.serveAll f limit requests).rest = gap ++ ofChar '"' :: after) :
    let result := ((source.cursor.serveAll f limit requests).next f).1
    ((∃ n, after.ClosesAt n) → ∃ body rest, after = body ++ ofChar '"' :: rest ∧
      IsLeast {n | after.ClosesAt n} body.length ∧
      result = .ok (some ⟨.atom (.string (ofChar '\\' ∈ body) body), before.place,
        Text.place (before ++ (ofChar '"' :: body ++ [ofChar '"']))⟩)) ∧
    ((∀ n, ¬ after.ClosesAt n) → result = .error
      (.unterminatedString before.place (Text.place (before ++ ofChar '"' :: after)))) := by
  intro result
  obtain ⟨done, hdone⟩ := Cursor.passes_serveAll f limit source.cursor requests
  set cursor := source.cursor.serveAll f limit requests
  have hgo := Cursor.passes_pass hstart
  have hpass := hdone.trans hgo
  have hbefore : done ++ gap = before :=
    (List.append_left_inj _).mp (hpass.1.symm.trans (congrArg Utf8.Decoded.text hdecode))
  rw [hbefore] at hpass
  have hposition := position_eq_place hpass
  have hfault : (cursor.pass gap (ofChar '"' :: after)).fault = none := by
    rw [hpass.fault_eq]
    exact congrArg Utf8.Decoded.fault hdecode
  have hresult : result = ((cursor.pass gap (ofChar '"' :: after)).next f).1 := by
    rw [← Cursor.next_of_skipped hgap hgo]
  rw [hresult]
  refine ⟨fun hcloses => ?_, fun hopen => ?_⟩
  · have hleast : IsLeast {n | after.ClosesAt n} (Nat.find hcloses) :=
      ⟨Nat.find_spec hcloses, fun m hm => Nat.find_min' hcloses hm⟩
    obtain ⟨body, rest, rfl, hlength, hbody⟩ := Reading.exists_stringBody_of_isLeast hleast
    refine ⟨body, rest, rfl, hlength ▸ hleast, ?_⟩
    rw [Cursor.next_of_stringBody hbody rfl, hposition, ← Text.place_append]
  · rw [Cursor.next_of_not_closesAt rfl hfault hopen, hposition, ← Text.place_append]

/-- The quote in the comment starts nothing, one in the string is taken along, and the last one
is not, as the backslash before it is itself taken along. -/
theorem string_behind_comment_ends_at_last_quote :
    ((ofText ";\"\n\"\\\"\\\\\"").cursor.next { comments := false }).1 =
      .ok (some ⟨.atom (.string true "\\\"\\\\"), ⟨2, 0⟩, ⟨2, 6⟩⟩) := by
  have hgap : Skipped { comments := false } false ";\"\n" :=
    @Skipped.comment _ _ [] "\"" [] rfl (by simp) (by decide) (.blank (by decide))
  have hdecode : Utf8.decode (ofText ";\"\n\"\\\"\\\\\"").bytes =
      { text := (";\"\n" : Text) ++ ofChar '"' :: ("\\\"\\\\\"" : Text) } := by
    decide +kernel
  have hstart : ((ofText ";\"\n\"\\\"\\\\\"").cursor.serveAll
      { comments := false } none []).rest =
        (";\"\n" : Text) ++ ofChar '"' :: ("\\\"\\\\\"" : Text) := by
    decide +kernel
  obtain ⟨body, rest, hafter, hleast, hresult⟩ :=
    (string_ends_at_first_closing_quote hdecode hgap hstart).1 ⟨4, by decide⟩
  have hfour : IsLeast {n | Text.ClosesAt "\\\"\\\\\"" n} 4 := by
    refine ⟨by decide, fun n hn => ?_⟩
    by_contra hlt
    interval_cases n <;> exact absurd hn (by decide)
  have hbody := congrArg (List.take body.length) hafter
  rw [List.take_left, hleast.unique hfour] at hbody
  obtain rfl : body = "\\\"\\\\" := hbody.symm
  exact hresult

end Source
end SExpression
