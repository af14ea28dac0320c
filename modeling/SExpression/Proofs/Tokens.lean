import SExpression.Element.Assembly
import SExpression.Proofs.Encoding
import SExpression.Proofs.Reading

/-! Cursors against the lexical grammar: what reading one token does, and that a source without
a fault yields tokens to its end exactly where its text is written in the grammar. -/
namespace SExpression

namespace Cursor

theorem pass_pass (cursor : Cursor) (a b rest rest' : Text) :
    (cursor.pass a rest).pass b rest' = cursor.pass (a ++ b) rest' := by
  simp [pass, Text.encode_append, Nat.add_assoc]

/-- What reading one token does: it passes over blanks and a spelling, and ends before a fault
only with a lexeme that ends by itself. -/
inductive Step (f : Features) (cursor : Cursor) : Token → Cursor → Prop
  | lexeme {blanks spelling rest : Text} {lexeme : Lexeme}
      (hrest : cursor.rest = blanks ++ spelling ++ rest) (hblanks : ∀ c ∈ blanks, c.isBlank)
      (h : Spells f spelling lexeme) (hends : Ends f lexeme rest)
      (hfault : rest = [] → cursor.fault = none ∨ .ofLexeme lexeme = Found.closed lexeme) :
      Step f cursor
        ⟨lexeme, cursor.position.advanceOver blanks,
          cursor.position.advanceOver (blanks ++ spelling)⟩
        (cursor.pass (blanks ++ spelling) rest)

theorem judge_eq_ok {start stop : Cursor} {found : Found} {lexeme : Lexeme}
    (h : judge start stop found = .ok lexeme) : found.lexeme? = some lexeme ∧
      (found = .closed lexeme ∨ stop.blocked? = none) := by
  cases found with
  | closed => cases h; exact ⟨rfl, .inl rfl⟩
  | run =>
    simp only [judge] at h
    split at h
    · cases h
    next hb => cases h; exact ⟨rfl, .inr hb⟩
  | _ => cases h

theorem judge_ofLexeme {start stop : Cursor} {lexeme : Lexeme}
    (h : .ofLexeme lexeme = Found.closed lexeme ∨ stop.blocked? = none) :
    judge start stop (.ofLexeme lexeme) = .ok lexeme := by
  rcases h with h | h
  · rw [h]
    rfl
  · unfold Found.ofLexeme
    split <;> simp [judge, h]

theorem blocked?_eq_none_iff {cursor : Cursor} :
    cursor.blocked? = none ↔ (cursor.rest = [] → cursor.fault = none) := by
  unfold blocked?
  split <;> simp_all

theorem skipBlanks_eq {cursor : Cursor} {blanks rest : Text} (hrest : cursor.rest = blanks ++ rest)
    (hblanks : ∀ c ∈ blanks, c.isBlank) (hhead : ∀ c ∈ rest.head?, ¬ c.isBlank) :
    cursor.skipBlanks = cursor.pass blanks rest := by
  simp only [skipBlanks, hrest, takeWhile_append_of_ends hblanks hhead,
    dropWhile_append_of_ends hblanks hhead]

/-- The blanks that are skipped, and that none follows. -/
theorem exists_blanks (cursor : Cursor) : ∃ blanks rest, cursor.rest = blanks ++ rest ∧
    (∀ c ∈ blanks, c.isBlank) ∧ (∀ c ∈ rest.head?, ¬ c.isBlank) ∧
      cursor.skipBlanks = cursor.pass blanks rest :=
  ⟨cursor.rest.takeWhile CodePoint.isBlank, cursor.rest.dropWhile CodePoint.isBlank,
    List.takeWhile_append_dropWhile.symm, fun _ hc => List.mem_takeWhile_imp hc,
    not_of_mem_head?_dropWhile, rfl⟩

theorem read_of_skipBlanks_nil {f : Features} {cursor : Cursor} (h : cursor.skipBlanks.rest = []) :
    cursor.read f = (match cursor.skipBlanks.blocked? with
      | some e => .error e
      | none => .ok none, cursor.skipBlanks) := by
  simp only [read]
  split
  next => cases cursor.skipBlanks.blocked? <;> rfl
  next hc => simp [h] at hc

theorem read_of_skipBlanks_cons {f : Features} {cursor : Cursor} {c : CodePoint} {cs : Text}
    (h : cursor.skipBlanks.rest = c :: cs) {found : Found} {taken rest : Text}
    (hread : Reading.ofText f c cs = ⟨found, taken, rest⟩) :
    cursor.read f = ((judge cursor.skipBlanks (cursor.skipBlanks.pass taken rest) found).map
      fun lexeme => some ⟨lexeme, cursor.skipBlanks.position,
        (cursor.skipBlanks.pass taken rest).position⟩, cursor.skipBlanks.pass taken rest) := by
  simp only [read]
  split
  next hc => simp [h] at hc
  next d ds hd =>
    obtain ⟨rfl, rfl⟩ := List.cons.inj (h.symm.trans hd)
    simp only [hread]

theorem read_of_step {f : Features} {cursor later : Cursor} {token : Token}
    (h : Step f cursor token later) : cursor.read f = (.ok (some token), later) := by
  obtain @⟨blanks, spelling, rest, lexeme, hrest, hblanks, h, hends, hfault⟩ := h
  obtain ⟨c, cs, hcons, hblank, hread⟩ := Reading.ofText_of_spells h hends
  have hskip : cursor.skipBlanks = cursor.pass blanks (c :: cs) := by
    apply skipBlanks_eq (by rw [hrest, List.append_assoc, hcons]) hblanks
    simp [hblank]
  have hjudge : judge (cursor.pass blanks (c :: cs)) (cursor.pass (blanks ++ spelling) rest)
      (.ofLexeme lexeme) = .ok lexeme := by
    apply judge_ofLexeme
    by_cases hnil : rest = []
    · rcases hfault hnil with hnone | hclosed
      · exact .inr (blocked?_eq_none_iff.mpr fun _ => hnone)
      · exact .inl hclosed
    · exact .inr (blocked?_eq_none_iff.mpr fun h => absurd h hnil)
  rw [read_of_skipBlanks_cons (by rw [hskip, rest_pass]) hread]
  simp only [hskip, pass_pass, hjudge]
  simp [Except.map, pass]

theorem step_of_read {f : Features} {cursor later : Cursor} {token : Token}
    (h : cursor.read f = (.ok (some token), later)) : Step f cursor token later := by
  obtain ⟨blanks, rest, hrest, hblanks, hhead, hskip⟩ := exists_blanks cursor
  cases rest with
  | nil =>
    rw [read_of_skipBlanks_nil (by rw [hskip, rest_pass])] at h
    cases hb : cursor.skipBlanks.blocked? <;> simp [hb] at h
  | cons c cs =>
    have hwhole := Reading.ofText_taken_append_rest f c cs
    have hsound := Reading.isSound_ofText f c cs
    generalize hread : Reading.ofText f c cs = r at hwhole hsound
    obtain ⟨found, taken, left⟩ := r
    rw [read_of_skipBlanks_cons (by rw [hskip, rest_pass]) hread, hskip, pass_pass] at h
    obtain ⟨hmap, rfl⟩ := Prod.mk.inj h
    cases hjudge : judge (cursor.pass blanks (c :: cs)) (cursor.pass (blanks ++ taken) left)
        found with
    | error e => simp [hjudge, Except.map] at hmap
    | ok lexeme =>
      rw [hjudge] at hmap
      cases hmap
      obtain ⟨hlexeme, hcase⟩ := judge_eq_ok hjudge
      obtain ⟨hfound, hspells, hends⟩ := hsound lexeme hlexeme
      refine .lexeme (by rw [hrest, List.append_assoc, hwhole]) hblanks hspells hends fun hnil => ?_
      rcases hcase with hclosed | hblocked
      · exact .inr (hfound.symm.trans hclosed)
      · have hnone := blocked?_eq_none_iff.mp hblocked
        exact .inl (hnone hnil)

/-- Reading yields a token exactly where the grammar has one. -/
theorem read_eq_ok_some_iff {f : Features} {cursor later : Cursor} {token : Token} :
    cursor.read f = (.ok (some token), later) ↔ Step f cursor token later :=
  ⟨step_of_read, read_of_step⟩

theorem read_eq_ok_none_iff {f : Features} {cursor later : Cursor} :
    cursor.read f = (.ok none, later) ↔ (∀ c ∈ cursor.rest, c.isBlank) ∧
      cursor.fault = none ∧ later = cursor.pass cursor.rest [] := by
  obtain ⟨blanks, rest, hrest, hblanks, hhead, hskip⟩ := exists_blanks cursor
  cases rest with
  | nil =>
    rw [List.append_nil] at hrest
    rw [read_of_skipBlanks_nil (by rw [hskip, rest_pass]), hskip]
    cases hb : (cursor.pass blanks []).blocked? with
    | none =>
      have hfault := blocked?_eq_none_iff.mp hb rfl
      simp only [hrest, Prod.mk.injEq, true_and]
      exact ⟨fun h => ⟨hblanks, hfault, h.symm⟩, fun h => h.2.2.symm⟩
    | some e =>
      simp only [Prod.mk.injEq, reduceCtorEq, false_and, false_iff]
      rintro ⟨-, hfault, -⟩
      have hnone : (cursor.pass blanks []).blocked? = none :=
        blocked?_eq_none_iff.mpr fun _ => hfault
      rw [hnone] at hb
      cases hb
  | cons c cs =>
    have hblank := hhead c (by simp)
    generalize hread : Reading.ofText f c cs = r
    rw [read_of_skipBlanks_cons (by rw [hskip, rest_pass]) hread]
    constructor
    · intro h
      cases hj : judge cursor.skipBlanks (cursor.skipBlanks.pass r.taken r.rest) r.found <;>
        simp [hj, Except.map] at h
    · intro h
      exact absurd (h.1 c (by simp [hrest])) hblank

/-- The features keep a lexeme that is no comment, and comments if they are on. -/
def Keeps (f : Features) (lexeme : Lexeme) : Prop :=
  lexeme.isComment → f.comments

theorem keeps_iff {f : Features} {lexeme : Lexeme} :
    Keeps f lexeme ↔ (lexeme.isComment && !f.comments) = false := by
  unfold Keeps
  cases lexeme.isComment <;> cases f.comments <;> simp

theorem next_eq (f : Features) (cursor : Cursor) : cursor.next f = match cursor.read f with
    | (.ok (some token), later) =>
      if token.lexeme.isComment && !f.comments then later.next f else (.ok (some token), later)
    | result => result := by
  rw [next]
  split
  next h => rw [h]
  next h =>
    split
    next h' => exact absurd h' (h _ _)
    next => rfl

theorem next_of_rest_nil {f : Features} {cursor : Cursor} (h : cursor.rest = [])
    (hfault : cursor.fault = none) : cursor.next f = (.ok none, cursor.pass [] []) := by
  have hread : cursor.read f = (.ok none, cursor.pass [] []) := by
    apply read_eq_ok_none_iff.mpr
    rw [h]
    exact ⟨by simp, hfault, rfl⟩
  rw [next_eq, hread]

theorem next_of_read {f : Features} {cursor later : Cursor} {token : Token}
    (h : cursor.read f = (.ok (some token), later)) (hkeeps : Keeps f token.lexeme) :
    cursor.next f = (.ok (some token), later) := by
  simp [next_eq, h, keeps_iff.mp hkeeps]

theorem next_of_not_keeps {f : Features} {cursor later : Cursor} {comment : Token}
    (h : cursor.read f = (.ok (some comment), later)) (hkeeps : ¬ Keeps f comment.lexeme) :
    cursor.next f = later.next f := by
  rw [keeps_iff, Bool.not_eq_false] at hkeeps
  rw [next_eq, h]
  exact if_pos hkeeps

/-- The next token that the features keep, behind comments that they do not. -/
inductive Finds (f : Features) : Cursor → Token → Cursor → Prop
  | keep {cursor later : Cursor} {token : Token} (h : Step f cursor token later)
      (hkeeps : Keeps f token.lexeme) : Finds f cursor token later
  | skip {cursor middle later : Cursor} {comment token : Token}
      (hcomment : Step f cursor comment middle) (hkeeps : ¬ Keeps f comment.lexeme)
      (h : Finds f middle token later) : Finds f cursor token later

theorem next_eq_ok_some_iff {f : Features} {cursor later : Cursor} {token : Token} :
    cursor.next f = (.ok (some token), later) ↔ Finds f cursor token later := by
  constructor
  · intro h
    fun_induction next f cursor with
    | case1 cursor comment middle hread hskip ih =>
      have hkeeps : ¬ Keeps f comment.lexeme := by simp [keeps_iff, hskip]
      exact .skip (read_eq_ok_some_iff.mp hread) hkeeps (ih h)
    | case2 cursor other middle hread hskip =>
      cases h
      exact .keep (read_eq_ok_some_iff.mp hread) (keeps_iff.mpr (Bool.eq_false_iff.mpr hskip))
    | case3 cursor hno => exact absurd h (hno _ _)
  · intro h
    induction h with
    | keep h hkeeps => exact next_of_read (read_of_step h) hkeeps
    | skip hcomment hkeeps _ ih => rw [next_of_not_keeps (read_of_step hcomment) hkeeps, ih]

/-- Behind the end of the source, nothing is left. -/
theorem rest_of_next_none {f : Features} {cursor later : Cursor}
    (h : cursor.next f = (.ok none, later)) : later.rest = [] ∧ later.fault = none := by
  fun_induction next f cursor with
  | case1 _ _ _ _ _ ih => exact ih h
  | case2 => cases h
  | case3 cursor =>
    obtain ⟨-, hfault, rfl⟩ := read_eq_ok_none_iff.mp h
    exact ⟨rfl, hfault⟩

theorem next_eq_read {f : Features} (hf : f.comments) (cursor : Cursor) :
    cursor.next f = cursor.read f := by
  rw [next_eq]
  split
  next h => simp [hf, h]
  next => rfl

theorem Step.rest_suffix {f : Features} {cursor later : Cursor} {token : Token}
    (h : Step f cursor token later) : later.rest <:+ cursor.rest := by
  obtain ⟨hrest, -⟩ := h
  rw [hrest]
  exact List.suffix_append _ _

/-- The next token is one that the features keep, and the grammar has it at some cursor. -/
theorem step_of_next {f : Features} {cursor later : Cursor} {token : Token}
    (h : cursor.next f = (.ok (some token), later)) : Keeps f token.lexeme ∧
      ∃ middle : Cursor, middle.rest <:+ cursor.rest ∧ Step f middle token later := by
  rw [next_eq_ok_some_iff] at h
  induction h with
  | @keep cursor _ _ h hkeeps => exact ⟨hkeeps, cursor, List.suffix_refl _, h⟩
  | skip hcomment _ _ ih =>
    obtain ⟨hkeeps, middle, hmiddle, hstep⟩ := ih
    exact ⟨hkeeps, middle, hmiddle.trans hcomment.rest_suffix, hstep⟩

theorem tokens_eq (f : Features) (cursor : Cursor) : cursor.tokens f = match cursor.next f with
    | (.error e, later) => ⟨[], some e, later⟩
    | (.ok none, later) => ⟨[], none, later⟩
    | (.ok (some token), later) =>
      { later.tokens f with tokens := token :: (later.tokens f).tokens } := by
  rw [tokens]
  split
  next h => rw [h]
  next h => rw [h]
  next h => rw [h]

/-- A written text without a fault yields its lexemes and then the end. -/
theorem tokens_of_written {f : Features} {text : Text} {lexemes : List Lexeme}
    (h : Written f text lexemes) (hkeeps : ∀ lexeme ∈ lexemes, Keeps f lexeme) {cursor : Cursor}
    (hrest : cursor.rest = text) (hfault : cursor.fault = none) :
    (cursor.tokens f).error = none ∧ (cursor.tokens f).tokens.map Token.lexeme = lexemes := by
  induction h generalizing cursor with
  | blank hblank =>
    have hread : cursor.read f = (.ok none, cursor.pass cursor.rest []) :=
      read_eq_ok_none_iff.mpr ⟨hrest ▸ hblank, hfault, rfl⟩
    have hnext : cursor.next f = (.ok none, cursor.pass cursor.rest []) := by rw [next_eq, hread]
    rw [tokens_eq, hnext]
    exact ⟨rfl, rfl⟩
  | @lexeme blanks spelling rest _ _ hblanks h hends _ ih =>
    have hread := read_of_step (.lexeme hrest hblanks h hends fun _ => .inl hfault)
    rw [tokens_eq, next_of_read hread (hkeeps _ (by simp))]
    obtain ⟨herror, hlexemes⟩ := ih (fun l hl => hkeeps l (by simp [hl]))
      (rest_pass cursor (blanks ++ spelling) rest) hfault
    exact ⟨herror, by simp [hlexemes]⟩

/-- A source that yields tokens to its end is written, comments included. -/
theorem written_of_tokens {f : Features} (hf : f.comments) {cursor : Cursor}
    (h : (cursor.tokens f).error = none) :
    Written f cursor.rest ((cursor.tokens f).tokens.map Token.lexeme) := by
  fun_induction tokens f cursor with
  | case1 => cases h
  | case2 cursor later hnext =>
    rw [next_eq_read hf] at hnext
    exact .blank (read_eq_ok_none_iff.mp hnext).1
  | case3 cursor token later hnext _ ih =>
    rw [next_eq_read hf] at hnext
    obtain ⟨hrest, hblanks, hspells, hends, -⟩ := step_of_read hnext
    rw [hrest]
    exact .lexeme hblanks hspells hends (ih h)

/-- Every token is one that the features keep and that the grammar has at some cursor. -/
theorem step_of_mem_tokens {f : Features} {cursor : Cursor} :
    ∀ token ∈ (cursor.tokens f).tokens, Keeps f token.lexeme ∧
      ∃ middle later : Cursor, middle.rest <:+ cursor.rest ∧ Step f middle token later := by
  fun_induction tokens f cursor with
  | case1 => simp
  | case2 => simp
  | case3 cursor token later hnext _ ih =>
    intro other hother
    obtain ⟨hkeeps, middle, hmiddle, hstep⟩ := step_of_next hnext
    rcases List.mem_cons.mp hother with rfl | hother
    · exact ⟨hkeeps, middle, later, hmiddle, hstep⟩
    · obtain ⟨hkeeps, other, last, hsuffix, hlast⟩ := ih other hother
      exact ⟨hkeeps, other, last, (hsuffix.trans hstep.rest_suffix).trans hmiddle, hlast⟩

end Cursor

namespace Source

theorem cursor_ofText {text : Text} (h : ∀ c ∈ text, c.IsScalar) :
    (ofText text).cursor = { rest := text } := by
  simp [cursor, ofText, Cursor.ofBytes, Utf8.decode_encode h]

theorem tokenize_eq_ok_iff {f : Features} {source : Source} {tokens : List Token} :
    source.tokenize f = .ok tokens ↔
      (source.cursor.tokens f).error = none ∧ (source.cursor.tokens f).tokens = tokens := by
  unfold tokenize
  split
  next ts _ h => simp [h]
  next ts e _ h => simp [h]

/-- A written text yields its lexemes, if the features keep them. -/
theorem tokenize_of_written {f : Features} {text : Text} {lexemes : List Lexeme}
    (h : ∀ c ∈ text, c.IsScalar) (hwritten : Written f text lexemes)
    (hkeeps : ∀ l ∈ lexemes, Cursor.Keeps f l) :
    ∃ tokens, (ofText text).tokenize f = .ok tokens ∧ tokens.map Token.lexeme = lexemes := by
  have hcursor := cursor_ofText h
  have hrest : (ofText text).cursor.rest = text := by rw [hcursor]
  have hfault : (ofText text).cursor.fault = none := by rw [hcursor]
  obtain ⟨herror, hlexemes⟩ := Cursor.tokens_of_written hwritten hkeeps hrest hfault
  exact ⟨_, tokenize_eq_ok_iff.mpr ⟨herror, rfl⟩, hlexemes⟩

/-- A text of scalar values yields tokens to its end exactly where it is written in the lexical
grammar, and then they carry the lexemes that it is written with. -/
theorem tokenize_iff_written {text : Text} (h : ∀ c ∈ text, c.IsScalar) {f : Features}
    (hf : f.comments) (lexemes : List Lexeme) :
    (∃ tokens, (ofText text).tokenize f = .ok tokens ∧ tokens.map Token.lexeme = lexemes) ↔
      Written f text lexemes := by
  constructor
  · rintro ⟨tokens, htokens, rfl⟩
    obtain ⟨herror, rfl⟩ := tokenize_eq_ok_iff.mp htokens
    have hwritten := Cursor.written_of_tokens hf herror
    rwa [cursor_ofText h] at hwritten ⊢
  · intro hwritten
    exact tokenize_of_written h hwritten fun _ _ _ => hf

/-- Lexemes may touch where neither would take in the other. -/
theorem written_touching : Written {} "0b102;" [.atom (.integer .binary "10"),
    .atom (.integer .decimal "2"), .comment ";"] :=
  (tokenize_iff_written (by decide) rfl _).mp
    ⟨[⟨.atom (.integer .binary "10"), ⟨⟨1, 0⟩, ⟨1, 4⟩⟩⟩,
      ⟨.atom (.integer .decimal "2"), ⟨⟨1, 4⟩, ⟨1, 5⟩⟩⟩, ⟨.comment ";", ⟨⟨1, 5⟩, ⟨1, 6⟩⟩⟩],
      by decide +kernel, rfl⟩

end Source
end SExpression
