import SExpression.Proofs.Assembly

/-! Where reading leaves a cursor, whether it yields a token, the end or an error: it has passed
over the start of what was left, and an error tells before what it stands. -/
namespace SExpression
open CodePoint (ofChar)

namespace Cursor

/-- The cursor comes to `later` by passing over `taken`. -/
def Passes (cursor : Cursor) (taken : Text) (later : Cursor) : Prop :=
  cursor.rest = taken ++ later.rest ∧ later = cursor.pass taken later.rest

theorem passes_pass {cursor : Cursor} {taken rest : Text} (h : cursor.rest = taken ++ rest) :
    cursor.Passes taken (cursor.pass taken rest) :=
  ⟨h, rfl⟩

namespace Passes

variable {a b c : Cursor} {s t : Text}

theorem refl (cursor : Cursor) : cursor.Passes [] cursor :=
  ⟨rfl, rfl⟩

theorem trans (h : a.Passes s b) (h' : b.Passes t c) : a.Passes (s ++ t) c := by
  obtain ⟨hrest, hb⟩ := h
  obtain ⟨hrest', hc⟩ := h'
  constructor
  · rw [hrest, hrest', List.append_assoc]
  · rw [hb, pass_pass] at hc
    exact hc

theorem fault_eq (h : a.Passes s b) : b.fault = a.fault := by
  rw [h.2]
  rfl

theorem offset_eq (h : a.Passes s b) : b.offset = a.offset + s.encode.length := by
  rw [h.2]
  rfl

theorem position_eq (h : a.Passes s b) : b.position = a.position.advanceOver s := by
  rw [h.2]
  rfl

end Passes

theorem Step.passes {f : Features} {cursor later : Cursor} {token : Token}
    (h : Step f cursor token later) : ∃ blanks, (∀ c ∈ blanks, c.isBlank) ∧
      cursor.Passes (blanks ++ token.lexeme.spelling) later ∧
      token.span = ⟨cursor.position.advanceOver blanks, later.position⟩ := by
  obtain @⟨blanks, spelling, rest, lexeme, hrest, hblanks, h, -, -⟩ := h
  obtain rfl := h.eq_spelling
  exact ⟨blanks, hblanks, passes_pass hrest, rfl⟩

end Cursor

namespace Reading

/-- How a text starts from which no lexeme is read. -/
inductive Fails (f : Features) : Text → Reading → Prop
  | unclosedString {body : Text} :
      Fails f (ofChar '"' :: body) ⟨.unclosedString, ofChar '"' :: body, []⟩
  | unclosedBytes {digits : Text} (h : ∀ c ∈ digits, c.isHexDigit) :
      Fails f (ofChar '#' :: digits) ⟨.unclosedBytes, ofChar '#' :: digits, []⟩
  | brokenBytes {digits rest : Text} {c : CodePoint} (h : ∀ c ∈ digits, c.isHexDigit)
      (hdigit : ¬ c.isHexDigit) (hsign : c ≠ '#') :
      Fails f (ofChar '#' :: digits ++ c :: rest)
        ⟨.brokenBytes c, ofChar '#' :: digits, c :: rest⟩
  | unknown {c : CodePoint} {cs : Text} : Fails f (c :: cs) ⟨.unknown c, [c], cs⟩

theorem fails_string (f : Features) {cs : Text} (h : (string '"' cs).found.lexeme? = none) :
    Fails f (ofChar '"' :: cs) (string '"' cs) := by
  unfold string at h ⊢
  cases hbody : splitString cs with
  | none => exact .unclosedString
  | some parts =>
    rw [hbody] at h
    cases h

theorem fails_bytes (f : Features) {cs : Text} (h : (bytes '#' cs).found.lexeme? = none) :
    Fails f (ofChar '#' :: cs) (bytes '#' cs) := by
  have hdigits : ∀ c ∈ cs.takeWhile CodePoint.isHexDigit, c.isHexDigit :=
    fun c hc => List.mem_takeWhile_imp hc
  have hwhole := List.takeWhile_append_dropWhile (p := CodePoint.isHexDigit) (l := cs)
  have hhead : ∀ c ∈ (cs.dropWhile CodePoint.isHexDigit).head?, ¬ c.isHexDigit :=
    not_of_mem_head?_dropWhile
  unfold bytes at h ⊢
  generalize cs.takeWhile CodePoint.isHexDigit = digits at *
  generalize cs.dropWhile CodePoint.isHexDigit = rest at *
  subst hwhole
  cases rest with
  | nil =>
    rw [List.append_nil]
    exact .unclosedBytes hdigits
  | cons c rest =>
    by_cases hc : c = '#'
    · simp only [hc, if_true] at h
      cases h
    · simp only [hc, if_false]
      exact .brokenBytes hdigits (hhead c rfl) hc

theorem fails_number (digit : CodePoint) (cs : Text) : (number digit cs).found.lexeme? ≠ none := by
  unfold number longest
  repeat' split
  all_goals simp [Found.lexeme?]

/-- Nothing else goes wrong in reading a text. -/
theorem fails_ofText {f : Features} {c : CodePoint} {cs : Text}
    (h : (ofText f c cs).found.lexeme? = none) : Fails f (c :: cs) (ofText f c cs) := by
  unfold ofText at h ⊢
  split at h
  next => cases h
  next => cases h
  next =>
    split_ifs at h ⊢ with hsemicolon hquote hbytes hdigit hstart
    · cases h
    · subst hquote
      exact fails_string f h
    · obtain ⟨-, rfl⟩ := by simpa using hbytes
      exact fails_bytes f h
    · exact absurd h (fails_number c cs)
    · cases h
    · exact .unknown

end Reading

/-- A token that was read is never the cause of an error of reading. -/
theorem Progress.accept_ne_error_token (limit : Option ℤ) (stack : List OpenGroup) (token : Token)
    (e : TokenError) : accept limit stack token ≠ .error (.token e) := by
  intro h
  have hbreaks : Assembly.Breaks limit ⟨[], stack⟩ token (.token e) := by
    rw [← Assembly.step_eq_error_iff, Assembly.step, h]
    rfl
  cases hbreaks

namespace Cursor

/-- What an error of reading tells, and where it leaves the cursor. -/
inductive Fails (cursor : Cursor) : TokenError → Cursor → Prop
  | badData {taken : Text} {later : Cursor} {cause : Utf8.DecodeError}
      (h : cursor.Passes taken later) (hrest : later.rest = [])
      (hfault : later.fault = some cause) :
      Fails cursor (.badData cause later.offset later.position) later
  | unterminatedString {before body : Text} {later : Cursor}
      (h : cursor.Passes (before ++ ofChar '"' :: body) later) (hrest : later.rest = [])
      (hfault : later.fault = none) :
      Fails cursor (.unterminatedString (cursor.position.advanceOver before) later.position) later
  | unterminatedBytes {before digits : Text} {later : Cursor}
      (h : cursor.Passes (before ++ ofChar '#' :: digits) later) (hrest : later.rest = [])
      (hfault : later.fault = none) :
      Fails cursor (.unterminatedBytes later.position) later
  | brokenBytes {before digits rest : Text} {c : CodePoint} {later : Cursor}
      (h : cursor.Passes (before ++ ofChar '#' :: digits) later) (hrest : later.rest = c :: rest) :
      Fails cursor (.brokenBytes later.position c) later
  | unprocessable {before : Text} {c : CodePoint} {later : Cursor}
      (h : cursor.Passes (before ++ [c]) later) :
      Fails cursor (.unprocessable (cursor.position.advanceOver before) c) later

theorem Fails.of_passes {cursor middle later : Cursor} {taken : Text} {e : TokenError}
    (h : cursor.Passes taken middle) (he : Fails middle e later) : Fails cursor e later := by
  cases he with
  | badData h' hrest hfault => exact .badData (h.trans h') hrest hfault
  | unterminatedString h' hrest hfault =>
    rw [h.position_eq, ← Position.advanceOver_append]
    exact .unterminatedString (by rw [List.append_assoc]; exact h.trans h') hrest hfault
  | unterminatedBytes h' hrest hfault =>
    exact .unterminatedBytes (by rw [List.append_assoc]; exact h.trans h') hrest hfault
  | brokenBytes h' hrest =>
    exact .brokenBytes (by rw [List.append_assoc]; exact h.trans h') hrest
  | unprocessable h' =>
    rw [h.position_eq, ← Position.advanceOver_append]
    exact .unprocessable (by rw [List.append_assoc]; exact h.trans h')

theorem Fails.passes {cursor later : Cursor} {e : TokenError} (h : Fails cursor e later) :
    ∃ taken, cursor.Passes taken later := by
  cases h with
  | badData h => exact ⟨_, h⟩
  | unterminatedString h => exact ⟨_, h⟩
  | unterminatedBytes h => exact ⟨_, h⟩
  | brokenBytes h => exact ⟨_, h⟩
  | unprocessable h => exact ⟨_, h⟩

theorem blocked?_eq_some_iff {cursor : Cursor} {e : TokenError} : cursor.blocked? = some e ↔
    cursor.rest = [] ∧ ∃ cause, cursor.fault = some cause ∧
      e = .badData cause cursor.offset cursor.position := by
  unfold blocked?
  split <;> simp_all [eq_comm]

theorem fails_of_blocked? {cursor later : Cursor} {taken : Text} {e : TokenError}
    (h : cursor.Passes taken later) (he : later.blocked? = some e) : Fails cursor e later := by
  obtain ⟨hrest, cause, hfault, rfl⟩ := blocked?_eq_some_iff.mp he
  exact .badData h hrest hfault

/-- An error in judging what was read is that of a fault ahead, or else that of the text. -/
theorem fails_of_judge {f : Features} {cursor start : Cursor} {blanks cs : Text} {c : CodePoint}
    {r : Reading} {e : TokenError} (hblanks : cursor.Passes blanks start)
    (hcs : start.rest = c :: cs) (hr : Reading.ofText f c cs = r)
    (h : judge start (start.pass r.taken r.rest) r.found = .error e) :
    Fails cursor e (start.pass r.taken r.rest) := by
  have hwhole := Reading.ofText_taken_append_rest f c cs
  rw [hr] at hwhole
  have hpass := hblanks.trans (passes_pass (hcs.trans hwhole.symm))
  by_cases hblocked : (start.pass r.taken r.rest).blocked? = some e
  · exact fails_of_blocked? hpass hblocked
  have hlexeme : r.found.lexeme? = none := by
    cases hfound : r.found with
    | closed => simp [hfound, judge] at h
    | run => cases hb : (start.pass r.taken r.rest).blocked? <;> simp_all [judge]
    | _ => rfl
  have hfails := Reading.fails_ofText (hr ▸ hlexeme)
  rw [hr] at hfails
  cases hfails with
  | unclosedString =>
    cases hb : (start.pass (ofChar '"' :: cs) []).blocked? with
    | some d => simp_all [judge]
    | none =>
      obtain rfl : _ = e := by simpa [judge, hb] using h
      have hfault := blocked?_eq_none_iff.mp hb rfl
      rw [hblanks.position_eq]
      exact .unterminatedString hpass rfl hfault
  | unclosedBytes =>
    cases hb : (start.pass (ofChar '#' :: cs) []).blocked? with
    | some d => simp_all [judge]
    | none =>
      obtain rfl : _ = e := by simpa [judge, hb] using h
      have hfault := blocked?_eq_none_iff.mp hb rfl
      exact .unterminatedBytes hpass rfl hfault
  | brokenBytes =>
    cases h
    exact .brokenBytes hpass rfl
  | unknown =>
    cases h
    rw [hblanks.position_eq]
    exact .unprocessable hpass

section Reads

variable {f : Features} {cursor later : Cursor} {e : TokenError}

theorem fails_of_read (h : cursor.read f = (.error e, later)) : Fails cursor e later := by
  obtain ⟨blanks, rest, hrest, -, -, hskip⟩ := exists_blanks cursor
  have hblanks : cursor.Passes blanks cursor.skipBlanks := by
    rw [hskip]
    exact passes_pass hrest
  cases hcs : cursor.skipBlanks.rest with
  | nil =>
    rw [read_of_skipBlanks_nil hcs] at h
    cases hb : cursor.skipBlanks.blocked? with
    | none => simp [hb] at h
    | some d =>
      rw [hb] at h
      cases h
      exact fails_of_blocked? hblanks hb
  | cons c cs =>
    generalize hr : Reading.ofText f c cs = r
    rw [read_of_skipBlanks_cons hcs hr] at h
    cases hj : judge cursor.skipBlanks (cursor.skipBlanks.pass r.taken r.rest) r.found with
    | error d =>
      rw [hj] at h
      cases h
      exact fails_of_judge hblanks hcs hr hj
    | ok lexeme => simp [hj, Except.map] at h

/-- Reading leaves the cursor further on in what was left. -/
theorem passes_of_read {result : Except TokenError (Option Token)}
    (h : cursor.read f = (result, later)) : ∃ taken, cursor.Passes taken later := by
  obtain e | _ | token := result
  · exact (fails_of_read h).passes
  · obtain ⟨-, -, rfl⟩ := read_eq_ok_none_iff.mp h
    exact ⟨cursor.rest, passes_pass (by simp)⟩
  · obtain ⟨blanks, -, hpass, -⟩ := (step_of_read h).passes
    exact ⟨_, hpass⟩

theorem passes_of_next {result : Except TokenError (Option Token)}
    (h : cursor.next f = (result, later)) : ∃ taken, cursor.Passes taken later := by
  fun_induction next f cursor with
  | case1 cursor _ _ hread _ ih =>
    obtain ⟨blanks, hpass⟩ := passes_of_read hread
    obtain ⟨taken, hlater⟩ := ih h
    exact ⟨_, hpass.trans hlater⟩
  | case2 cursor token middle hread _ =>
    cases h
    exact passes_of_read hread
  | case3 => exact passes_of_read h

theorem fails_of_next (h : cursor.next f = (.error e, later)) : Fails cursor e later := by
  fun_induction next f cursor with
  | case1 cursor _ _ hread _ ih =>
    obtain ⟨blanks, hpass⟩ := passes_of_read hread
    exact (ih h).of_passes hpass
  | case2 => cases h
  | case3 => exact fails_of_read h

/-- The error after the tokens, if there is one, is one of reading. -/
theorem fails_of_tokens (h : (cursor.tokens f).error = some e) :
    Fails cursor e (cursor.tokens f).stop := by
  fun_induction tokens f cursor with
  | case1 cursor d later hnext =>
    cases h
    exact fails_of_next hnext
  | case2 => cases h
  | case3 cursor token later hnext _ ih =>
    obtain ⟨taken, hpass⟩ := passes_of_next hnext
    exact (ih h).of_passes hpass

theorem passes_of_assemble {limit : Option ℤ} {stack : List OpenGroup}
    {result : Except ParseError (Option Element)}
    (h : cursor.assemble f limit stack = (result, later)) : ∃ taken, cursor.Passes taken later := by
  fun_induction assemble f limit stack cursor with
  | case6 stack cursor token middle hnext _ _ ih =>
    obtain ⟨taken, hpass⟩ := passes_of_next hnext
    obtain ⟨more, hlater⟩ := ih h
    exact ⟨_, hpass.trans hlater⟩
  | case1 _ _ _ _ hnext => cases h; exact passes_of_next hnext
  | case2 _ _ hnext => cases h; exact passes_of_next hnext
  | case3 _ _ hnext => cases h; exact passes_of_next hnext
  | case4 _ _ _ _ hnext => cases h; exact passes_of_next hnext
  | case5 _ _ _ _ hnext => cases h; exact passes_of_next hnext

/-- An error of reading that ends an element is one that reading it met. -/
theorem fails_of_assemble {limit : Option ℤ} {stack : List OpenGroup}
    (h : cursor.assemble f limit stack = (.error (.token e), later)) : Fails cursor e later := by
  fun_induction assemble f limit stack cursor with
  | case1 _ _ _ _ hnext =>
    cases h
    exact fails_of_next hnext
  | case4 stack _ token _ _ d haccept =>
    cases h
    exact absurd haccept (Progress.accept_ne_error_token limit stack token e)
  | case6 _ _ _ _ hnext _ _ ih =>
    obtain ⟨taken, hpass⟩ := passes_of_next hnext
    exact (ih h).of_passes hpass
  | case2 => cases h
  | case3 => cases h
  | case5 => cases h

end Reads
end Cursor

/-- What may be asked of a reader: the next token, or the next element. -/
inductive Request where
  | token
  | element
deriving DecidableEq

namespace Cursor

section Serves

variable (f : Features) (limit : Option ℤ) (cursor : Cursor)

/-- Where a request leaves the cursor, also when it fails. -/
def serve : Request → Cursor
  | .token => (cursor.next f).2
  | .element => (cursor.element f limit).2

def serveAll (requests : List Request) : Cursor :=
  requests.foldl (serve f limit) cursor

/-- The error of reading that a request fails with. -/
def tokenError? : Request → Option TokenError
  | .token =>
    match (cursor.next f).1 with
    | .error e => some e
    | .ok _ => none
  | .element =>
    match (cursor.element f limit).1 with
    | .error (.token e) => some e
    | _ => none

theorem passes_serve (request : Request) :
    ∃ taken, cursor.Passes taken (cursor.serve f limit request) := by
  cases request with
  | token => exact passes_of_next rfl
  | element => exact passes_of_assemble rfl

theorem passes_serveAll (requests : List Request) :
    ∃ taken, cursor.Passes taken (cursor.serveAll f limit requests) := by
  induction requests generalizing cursor with
  | nil => exact ⟨[], .refl cursor⟩
  | cons request requests ih =>
    obtain ⟨taken, hfirst⟩ := passes_serve f limit cursor request
    obtain ⟨more, hrest⟩ := ih (cursor.serve f limit request)
    exact ⟨taken ++ more, hfirst.trans hrest⟩

end Serves

theorem fails_serve {f : Features} {limit : Option ℤ} {cursor : Cursor} {request : Request}
    {e : TokenError} (h : cursor.tokenError? f limit request = some e) :
    Fails cursor e (cursor.serve f limit request) := by
  cases request with
  | token =>
    cases hnext : cursor.next f with
    | mk result later =>
      simp only [tokenError?, serve, hnext] at h ⊢
      split at h <;> cases h
      exact fails_of_next hnext
  | element =>
    cases helement : cursor.element f limit with
    | mk result later =>
      simp only [tokenError?, serve, helement] at h ⊢
      split at h <;> cases h
      exact fails_of_assemble helement

end Cursor
end SExpression
