import SExpression.Proofs.Layout

/-! Bytes that are no UTF-8 are found where the valid ones end, whatever is being read there: only
an error at a character before them can come first. -/
namespace SExpression

/-- Errors at a character that no lexeme can have where it stands. -/
def TokenError.AtCharacter : TokenError → Prop
  | .brokenBytes _ _ => True
  | .unprocessable _ _ => True
  | _ => False

namespace Cursor

variable {cursor later : Cursor} {e : TokenError}

theorem Fails.fault_of_badData {cause : Utf8.DecodeError} {offset : ℕ} {position : Position}
    (h : Fails cursor (.badData cause offset position) later) : cursor.fault = some cause := by
  cases h with
  | badData h _ hfault => rw [← h.fault_eq, hfault]

/-- Before a fault, reading fails at the fault or at a character on the way to it. -/
theorem Fails.of_fault {cause : Utf8.DecodeError} (h : Fails cursor e later)
    (hfault : cursor.fault = some cause) :
    e = .badData cause (cursor.offset + cursor.rest.encode.length)
      (cursor.position.advanceOver cursor.rest) ∨
    ∃ before c after, cursor.rest = before ++ c :: after ∧
      (e = .unprocessable (cursor.position.advanceOver before) c ∨
        e = .brokenBytes (cursor.position.advanceOver before) c) := by
  cases h with
  | @badData taken _ cause' h hrest hlater =>
    have htaken : cursor.rest = taken := by rw [h.1, hrest, List.append_nil]
    obtain rfl : cause' = cause := by
      rw [h.fault_eq, hfault] at hlater
      exact (Option.some.inj hlater).symm
    left
    rw [h.offset_eq, h.position_eq, htaken]
  | unterminatedString h _ hnone => simp [h.fault_eq, hfault] at hnone
  | unterminatedBytes h _ hnone => simp [h.fault_eq, hfault] at hnone
  | @brokenBytes before digits rest c _ h hrest =>
    refine .inr ⟨before ++ CodePoint.ofChar '#' :: digits, c, rest, ?_, .inr ?_⟩
    · rw [h.1, hrest]
    · rw [h.position_eq]
  | @unprocessable before c _ h =>
    refine .inr ⟨before, c, later.rest, ?_, .inl rfl⟩
    rw [h.1, List.append_assoc]
    rfl

/-- The cursor at the same text, with no fault behind it. -/
def sound (cursor : Cursor) : Cursor :=
  { cursor with fault := none }

theorem blocked?_sound (cursor : Cursor) : cursor.sound.blocked? = none :=
  blocked?_eq_none_iff.mpr fun _ => rfl

/-- What is read of a text alone, against what is read of it before a fault: the same, or else the
fault ends the reading, where the text alone comes to its end without an error at a character. -/
inductive Agrees {α : Type} : Except TokenError α × Cursor → Except TokenError α × Cursor → Prop
  | same (result : Except TokenError α) (later : Cursor) :
      Agrees (result, later.sound) (result, later)
  | stopped {result : Except TokenError α} {last later : Cursor} {cause : Utf8.DecodeError}
      {offset : ℕ} {position : Position} (hrest : last.rest = []) (hfault : last.fault = none)
      (hresult : ∀ e, result = .error e → ¬ e.AtCharacter) :
      Agrees (result, last) (.error (.badData cause offset position), later)

theorem agrees_judge (start stop : Cursor) (found : Found) :
    Agrees (judge start.sound stop.sound found, stop.sound) (judge start stop found, stop) := by
  cases hb : stop.blocked? with
  | none =>
    have hjudge : judge start.sound stop.sound found = judge start stop found := by
      cases found <;> simp only [judge, hb, blocked?_sound] <;> rfl
    rw [hjudge]
    exact .same _ _
  | some e =>
    obtain ⟨hrest, cause, -, rfl⟩ := blocked?_eq_some_iff.mp hb
    cases found with
    | closed => exact .same _ _
    | brokenBytes => exact .same _ _
    | unknown => exact .same _ _
    | run lexeme =>
      simp only [judge, hb, blocked?_sound]
      refine .stopped hrest rfl ?_
      intro e he
      cases he
    | unclosedString =>
      simp only [judge, hb, blocked?_sound, Option.getD_some, Option.getD_none]
      refine .stopped hrest rfl ?_
      intro e he
      cases he
      exact id
    | unclosedBytes =>
      simp only [judge, hb, blocked?_sound, Option.getD_some, Option.getD_none]
      refine .stopped hrest rfl ?_
      intro e he
      cases he
      exact id

theorem Agrees.map {α β : Type} {r s : Except TokenError α × Cursor} (g : α → β) (h : Agrees r s) :
    Agrees (r.1.map g, r.2) (s.1.map g, s.2) := by
  cases h with
  | same => exact .same _ _
  | @stopped result _ _ _ _ _ hrest hfault hresult =>
    refine .stopped hrest hfault ?_
    intro e he
    apply hresult
    cases result with
    | error d =>
      cases he
      rfl
    | ok _ => cases he

theorem agrees_read (f : Features) (cursor : Cursor) :
    Agrees (cursor.sound.read f) (cursor.read f) := by
  have hskip : cursor.sound.skipBlanks = cursor.skipBlanks.sound := rfl
  cases hcs : cursor.skipBlanks.rest with
  | nil =>
    have hcs' : cursor.sound.skipBlanks.rest = [] := hcs
    rw [read_of_skipBlanks_nil hcs', read_of_skipBlanks_nil hcs, hskip, blocked?_sound]
    cases hb : cursor.skipBlanks.blocked? with
    | none => exact .same _ _
    | some e =>
      obtain ⟨hrest, cause, -, rfl⟩ := blocked?_eq_some_iff.mp hb
      refine .stopped hrest rfl ?_
      intro e he
      cases he
  | cons c cs =>
    have hcs' : cursor.sound.skipBlanks.rest = c :: cs := hcs
    generalize hread : Reading.ofText f c cs = r
    rw [read_of_skipBlanks_cons hcs' hread, read_of_skipBlanks_cons hcs hread]
    exact (agrees_judge cursor.skipBlanks (cursor.skipBlanks.pass r.taken r.rest) r.found).map _

theorem agrees_next (f : Features) (cursor : Cursor) :
    Agrees (cursor.sound.next f) (cursor.next f) := by
  fun_induction next f cursor with
  | case1 cursor token later hread hskip ih =>
    have hagrees := agrees_read f cursor
    rw [hread] at hagrees
    generalize hsound : cursor.sound.read f = r at hagrees
    cases hagrees
    rw [next_eq, hsound]
    simpa [hskip] using ih
  | case2 cursor token later hread hskip =>
    have hagrees := agrees_read f cursor
    rw [hread] at hagrees
    generalize hsound : cursor.sound.read f = r at hagrees
    cases hagrees
    rw [next_eq, hsound]
    simpa [hskip] using Agrees.same _ _
  | case3 cursor hno =>
    have hagrees := agrees_read f cursor
    generalize hsound : cursor.sound.read f = r at hagrees
    generalize hread : cursor.read f = s at hagrees hno
    rw [next_eq, hsound]
    cases hagrees with
    | same result later =>
      obtain e | _ | token := result
      · exact .same _ _
      · exact .same _ _
      · exact absurd rfl (hno token later)
    | stopped hrest hfault hresult =>
      split
      next token _ heq =>
        cases heq
        split
        -- A comment that ends with the text is dropped, and nothing is left behind it.
        next =>
          rw [next_of_rest_nil hrest hfault]
          exact .stopped rfl hfault (by simp)
        next => exact .stopped hrest hfault hresult
      next => exact .stopped hrest hfault hresult

/-- An error at a character does not depend on what comes behind the text. -/
theorem error_tokens_sound {f : Features} {cursor : Cursor} {e : TokenError} (he : e.AtCharacter) :
    (cursor.sound.tokens f).error = some e ↔ (cursor.tokens f).error = some e := by
  have hagrees := agrees_next f cursor
  rw [tokens_eq f cursor.sound]
  fun_induction tokens f cursor with
  | case1 cursor d later hnext =>
    rw [hnext] at hagrees
    generalize cursor.sound.next f = r at hagrees
    cases hagrees with
    | same => exact Iff.rfl
    | @stopped result last _ _ _ _ hrest hfault hresult =>
      have hlast : (last.tokens f).error = none := by
        rw [tokens_eq, next_of_rest_nil hrest hfault]
      refine iff_of_false ?_ ?_
      · intro h
        obtain d | _ | token := result
        · cases h
          exact hresult e rfl he
        · cases h
        · have hsome : (last.tokens f).error = some e := h
          rw [hlast] at hsome
          cases hsome
      · intro h
        cases h
        exact he
  | case2 cursor later hnext =>
    rw [hnext] at hagrees
    generalize cursor.sound.next f = r at hagrees
    cases hagrees
    exact Iff.rfl
  | case3 cursor token later hnext _ ih =>
    rw [hnext] at hagrees
    generalize cursor.sound.next f = r at hagrees
    cases hagrees
    have hlater := ih (agrees_next f later)
    rwa [← tokens_eq] at hlater

end Cursor

namespace Source

variable {f : Features}

theorem tokenize_eq_error_iff {source : Source} {e : TokenError} :
    source.tokenize f = .error e ↔ (source.cursor.tokens f).error = some e := by
  unfold tokenize
  split
  next h => simp [h]
  next h => simp [h]

theorem fault_of_tokenize {source : Source} {cause : Utf8.DecodeError} {offset : ℕ}
    {position : Position} (h : source.tokenize f = .error (.badData cause offset position)) :
    source.cursor.fault = some cause :=
  (Cursor.fails_of_tokens (tokenize_eq_error_iff.mp h)).fault_of_badData

/-- A source with a fault is never read to its end. -/
theorem tokenize_of_fault (f : Features) {source : Source} {cause : Utf8.DecodeError}
    (h : source.cursor.fault = some cause) :
    let text : Text := source.cursor.rest
    source.tokenize f = .error (.badData cause text.encode.length text.place) ∨
    ∃ (before : Text) (c : CodePoint) (after : Text), text = before ++ c :: after ∧
      (source.tokenize f = .error (.unprocessable before.place c) ∨
        source.tokenize f = .error (.brokenBytes before.place c)) := by
  intro text
  have hplace : ∀ before : Text, source.cursor.position.advanceOver before = before.place := by
    intro before
    rw [Text.place_eq]
    rfl
  cases herror : (source.cursor.tokens f).error with
  | none =>
    obtain ⟨-, -, -, -, -, hfault⟩ := Cursor.skipped_of_tokens herror
    rw [hfault] at h
    cases h
  | some e =>
    rw [tokenize_eq_error_iff.mpr herror]
    rcases (Cursor.fails_of_tokens herror).of_fault h with rfl | ⟨before, c, after, htext, he⟩
    · left
      have hoffset : source.cursor.offset + text.encode.length = text.encode.length :=
        Nat.zero_add _
      rw [hplace, hoffset]
    · right
      rw [hplace] at he
      refine ⟨before, c, after, htext, ?_⟩
      rcases he with rfl | rfl
      · exact .inl rfl
      · exact .inr rfl

/-- The longest start of the bytes that is UTF-8 decides: where it is all of them, no fault of the
data is reported. Otherwise its end is, unless a character before it is an error already, as it is
where nothing follows that start. -/
theorem tokenize_ofBytes_at_fault (data : Bytes) (f : Features) :
    ∃ (k : ℕ) (text : Text),
      IsGreatest {n | n ≤ data.length ∧ Utf8.IsValid (data.take n)} k ∧
      (∀ c ∈ text, c.IsScalar) ∧ text.encode = data.take k ∧
      (∀ e : TokenError, e.AtCharacter →
        ((ofBytes data).tokenize f = .error e ↔ (ofText text).tokenize f = .error e)) ∧
      (k = data.length → ∀ cause offset position,
        (ofBytes data).tokenize f ≠ .error (.badData cause offset position)) ∧
      (k < data.length →
        (∃ cause, (ofBytes data).tokenize f = .error (.badData cause k text.place) ∧
          Utf8.decodeAt? data k = .error cause) ∨
        ∃ (before : Text) (c : CodePoint) (after : Text), text = before ++ c :: after ∧
          ((ofBytes data).tokenize f = .error (.unprocessable before.place c) ∨
            (ofBytes data).tokenize f = .error (.brokenBytes before.place c))) := by
  have hgreatest := Utf8.isGreatest_decode data
  have htake := Utf8.take_decode data
  refine ⟨_, _, hgreatest, Utf8.isScalar_of_mem_decode, htake.symm, ?_, ?_, ?_⟩
  · intro e he
    have hsound : (ofText (Utf8.decode data).text).cursor = { rest := (Utf8.decode data).text } :=
      cursor_ofText Utf8.isScalar_of_mem_decode
    rw [tokenize_eq_error_iff, tokenize_eq_error_iff, hsound]
    exact (Cursor.error_tokens_sound he).symm
  · intro hk cause offset position herror
    rw [hk, List.take_length] at htake
    have hnone : (ofBytes data).cursor.fault = none := Utf8.fault_eq_none_iff.mpr htake.symm
    rw [fault_of_tokenize herror] at hnone
    cases hnone
  · intro hk
    cases hfault : (Utf8.decode data).fault with
    | none =>
      rw [Utf8.fault_eq_none_iff.mp hfault] at hk
      omega
    | some cause =>
      have hcause : Utf8.decodeAt? data (Utf8.decode data).text.encode.length = .error cause := by
        rw [Utf8.decodeAt?_eq hgreatest.1.1, Utf8.decode_drop, hfault]
        rfl
      have hcursor : (ofBytes data).cursor.fault = some cause := hfault
      rcases tokenize_of_fault f hcursor with h | h
      · exact .inl ⟨cause, h, hcause⟩
      · exact .inr h

/-- The bytes literal stays open at the fault, but would also have been broken off by a letter. -/
example : (ofBytes [0x23, 0x34, 0xC3, 0x28]).tokenize {} =
      .error (.badData .invalidContinuation 2 ⟨1, 2⟩) ∧
    (ofBytes [0x23, 0x34, 0x78, 0xC3, 0x28]).tokenize {} = .error (.brokenBytes ⟨1, 2⟩ 'x') := by
  decide +kernel

end Source
end SExpression
