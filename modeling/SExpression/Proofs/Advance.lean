import SExpression.Proofs.Interleaving

/-! Reading on, also after errors: a call takes the cursor further, or it has met the end of the
source or a fault of its data, and then every later call answers the same from where it stands. -/
namespace SExpression

theorem CodePoint.encode_ne_nil (c : CodePoint) : c.encode ≠ [] := by
  unfold encode
  dsimp only
  split_ifs <;> simp

theorem Text.length_encode_pos {text : Text} (h : text ≠ []) : 0 < text.encode.length := by
  obtain ⟨c, cs, rfl⟩ := List.exists_cons_of_ne_nil h
  have hc := List.length_pos_iff.mpr c.encode_ne_nil
  rw [encode, List.flatMap_cons, List.length_append]
  omega

/-- An error of the data itself. -/
def TokenError.isBadData : TokenError → Bool
  | .badData .. => true
  | _ => false

namespace Cursor

/-- The answers that no later call gets past: the end, and a fault of the data. -/
def isFinal : Except TokenError (Option Token) → Bool
  | .ok none => true
  | .error e => e.isBadData
  | .ok (some _) => false

variable {f : Features} {cursor middle later : Cursor} {e : TokenError} {token : Token}

theorem Passes.offset_lt {taken : Text} (h : cursor.Passes taken later) (hne : taken ≠ []) :
    cursor.offset < later.offset := by
  have hpos := Text.length_encode_pos hne
  rw [h.offset_eq]
  omega

/-- The offset of the end of the text stays the same. -/
theorem Passes.offset_add_length {taken : Text} (h : cursor.Passes taken later) :
    cursor.offset + cursor.rest.encode.length = later.offset + later.rest.encode.length := by
  rw [h.1, h.offset_eq, Text.encode_append, List.length_append, Nat.add_assoc]

theorem Step.offset_lt (h : Step f cursor token later) : cursor.offset < later.offset := by
  obtain ⟨blanks, -, hpass, -⟩ := h.passes
  obtain ⟨-, -, hspells, -, -⟩ := h
  obtain rfl := hspells.eq_spelling
  exact hpass.offset_lt (by simp [hspells.ne_nil])

/-- An error of the text is told behind what has led to it. -/
theorem Fails.offset_lt (h : Fails cursor e later) (he : ¬ e.isBadData) :
    cursor.offset < later.offset := by
  cases h with
  | badData => exact absurd rfl he
  | unterminatedString h => exact h.offset_lt (by simp)
  | unterminatedBytes h => exact h.offset_lt (by simp)
  | brokenBytes h => exact h.offset_lt (by simp)
  | unprocessable h => exact h.offset_lt (by simp)

theorem offset_lt_of_next {result : Except TokenError (Option Token)}
    (h : cursor.next f = (result, later)) (hresult : ¬ isFinal result) :
    cursor.offset < later.offset := by
  obtain e | _ | token := result
  · exact (fails_of_next h).offset_lt hresult
  · exact absurd rfl hresult
  · obtain ⟨hspells, gap, -, hpass, -⟩ := skipped_of_next_some h
    exact hpass.offset_lt (by simp [hspells.ne_nil])

/-- At a fault of the data, a call reads nothing and tells the fault. -/
theorem next_of_fault {cause : Utf8.DecodeError} (hrest : cursor.rest = [])
    (hfault : cursor.fault = some cause) :
    cursor.next f = (.error (.badData cause cursor.offset cursor.position), cursor) := by
  obtain ⟨rest, fault, offset, position⟩ := cursor
  obtain rfl : rest = [] := hrest
  obtain rfl : fault = some cause := hfault
  rw [next_eq]
  rfl

theorem next_of_final {result : Except TokenError (Option Token)}
    (h : cursor.next f = (result, later)) (hresult : isFinal result) :
    later.next f = (result, later) := by
  obtain e | _ | token := result
  · cases fails_of_next h with
    | badData _ hrest hfault => exact next_of_fault hrest hfault
    | _ => cases hresult
  · exact next_of_next_none h
  · cases hresult

/-- A cursor that such an answer leaves where it is stays there, whatever is asked. -/
theorem serveAll_of_final {result : Except TokenError (Option Token)}
    (h : cursor.next f = (result, cursor)) (hresult : isFinal result) (limit : Option ℤ)
    (requests : List Request) : cursor.serveAll f limit requests = cursor := by
  have hserve (request : Request) : cursor.serve f limit request = cursor := by
    cases request with
    | token => rw [serve, h]
    | element =>
      rw [serve, element, Assembly.assemble_eq, h]
      obtain e | _ | token := result
      · rfl
      · rfl
      · cases hresult
  induction requests with
  | nil => rfl
  | cons request requests ih => rwa [serveAll, List.foldl_cons, hserve]

/-- Where a number of calls for tokens leaves the cursor, whatever they answer. -/
def after (f : Features) : ℕ → Cursor → Cursor
  | 0, cursor => cursor
  | count + 1, cursor => after f count (cursor.next f).2

theorem after_of_final {result : Except TokenError (Option Token)}
    (h : cursor.next f = (result, cursor)) (count : ℕ) : after f count cursor = cursor := by
  induction count with
  | zero => rfl
  | succ count ih => rwa [after, h]

/-- No more calls get further than bytes are left. -/
theorem exists_calls (f : Features) (cursor : Cursor) :
    ∃ count result, count ≤ cursor.rest.encode.length ∧ isFinal result ∧
      (∀ n < count, ¬ isFinal ((after f n cursor).next f).1) ∧
      ∀ n ≥ count, ((after f n cursor).next f).1 = result := by
  induction hlength : cursor.rest.encode.length using Nat.strong_induction_on
    generalizing cursor with
  | _ length ih =>
    rcases hnext : cursor.next f with ⟨result, later⟩
    by_cases hresult : isFinal result
    · refine ⟨0, result, Nat.zero_le _, hresult, by simp, fun n _ => ?_⟩
      cases n with
      | zero => rw [after, hnext]
      | succ n =>
        have hlater := next_of_final hnext hresult
        rw [after, hnext, after_of_final hlater, hlater]
    · obtain ⟨taken, hpass⟩ := passes_of_next hnext
      have hoffset := offset_lt_of_next hnext hresult
      have hleft := hpass.offset_add_length
      obtain ⟨count, last, hcount, hlast, hbefore, hbehind⟩ := ih _ (by omega) later rfl
      refine ⟨count + 1, last, by omega, hlast, fun n hn => ?_, fun n hn => ?_⟩
      · cases n with
        | zero => rwa [after, hnext]
        | succ n =>
          rw [after, hnext]
          exact hbefore n (by omega)
      · cases n with
        | zero => omega
        | succ n =>
          rw [after, hnext]
          exact hbehind n (by omega)

/-- A number of comments that the features do not keep, one read behind the other. -/
inductive Drops (f : Features) : ℕ → Cursor → Cursor → Prop
  | nothing (cursor : Cursor) : Drops f 0 cursor cursor
  | comment {count : ℕ} {cursor middle later : Cursor} {comment : Token}
      (h : cursor.read f = (.ok (some comment), middle)) (hkeeps : ¬ Keeps f comment.lexeme)
      (hmore : Drops f count middle later) : Drops f (count + 1) cursor later

theorem Drops.count_add_offset_le {count : ℕ} (h : Drops f count cursor later) :
    count + cursor.offset ≤ later.offset := by
  induction h with
  | nothing => simp
  | comment h _ _ ih =>
    have hoffset := (step_of_read h).offset_lt
    omega

/-- A call comes to an end: it reads a number of comments that are dropped, and then what it
answers. -/
theorem exists_drops (f : Features) (cursor : Cursor) :
    ∃ count middle, Drops f count cursor middle ∧ cursor.next f = middle.read f ∧
      ∀ token later, middle.read f = (.ok (some token), later) → Keeps f token.lexeme := by
  fun_induction next f cursor with
  | case1 cursor comment middle hread hskip ih =>
    have hkeeps : ¬ Keeps f comment.lexeme := by simp [keeps_iff, hskip]
    obtain ⟨count, last, hdrops, hlast⟩ := ih
    exact ⟨count + 1, last, .comment hread hkeeps hdrops, hlast⟩
  | case2 cursor other middle hread hskip =>
    refine ⟨0, cursor, .nothing cursor, hread.symm, fun token later h => ?_⟩
    rw [hread] at h
    cases h
    exact keeps_iff.mpr (Bool.eq_false_iff.mpr hskip)
  | case3 cursor hno =>
    exact ⟨0, cursor, .nothing cursor, rfl, fun token later h => absurd h (hno token later)⟩

theorem StandsBehind.offset_add_length_le {bytes : Bytes} {done : Text}
    (h : StandsBehind bytes done cursor) :
    cursor.offset + cursor.rest.encode.length ≤ bytes.length := by
  obtain ⟨tail, hdata, -⟩ := Utf8.exists_decode_eq (bytes.drop cursor.offset)
  have hlength := congrArg List.length hdata
  simp only [h.decode_drop, List.length_drop, List.length_append] at hlength
  have hle := h.offset_le
  omega

theorem StandsBehind.offset_of_next_none {bytes : Bytes} {done : Text}
    (h : StandsBehind bytes done later) (hnext : cursor.next f = (.ok none, later)) :
    later.offset = bytes.length := by
  obtain ⟨hrest, hfault⟩ := rest_of_next_none hnext
  have hdrop := h.decode_drop
  rw [hrest, hfault, Utf8.decode_eq_nil_iff, List.drop_eq_nil_iff] at hdrop
  exact le_antisymm h.offset_le hdrop

/-- How a reader of the bytes goes on. -/
structure GoesOn (bytes : Bytes) (f : Features) (limit : Option ℤ) (cursor : Cursor) : Prop where
  /-- A call drops no more comments than it passes bytes. -/
  drops : ∃ count middle, Drops f count cursor middle ∧ count + cursor.offset ≤ middle.offset ∧
    cursor.next f = middle.read f ∧
      ∀ token later, middle.read f = (.ok (some token), later) → Keeps f token.lexeme
  token : ∀ token later, cursor.next f = (.ok (some token), later) → cursor.offset < later.offset
  textError : ∀ e later, cursor.next f = (.error e, later) → ¬ e.isBadData →
    cursor.offset < later.offset
  /-- The end is met over nothing but what is skipped. -/
  atEnd : ∀ later, cursor.next f = (.ok none, later) → Skipped f true cursor.rest ∧
    later = cursor.pass cursor.rest [] ∧ later.offset = bytes.length ∧
    ∀ requests, later.serveAll f limit requests = later ∧ later.next f = (.ok none, later)
  badData : ∀ cause offset position later,
    cursor.next f = (.error (.badData cause offset position), later) → ∀ requests,
      later.serveAll f limit requests = later ∧
        later.next f = (.error (.badData cause offset position), later)
  /-- All but as many calls as bytes are left give one and the same final answer. -/
  calls : ∃ count result, count + cursor.offset ≤ bytes.length ∧ isFinal result ∧
    (∀ n < count, ¬ isFinal ((after f n cursor).next f).1) ∧
    ∀ n ≥ count, ((after f n cursor).next f).1 = result

end Cursor

/-- Whatever was asked of a reader before, also with errors, a call gets further with a token or
with an error of the text, or else it has met the end or a fault of the data, where it and every
later call stay. -/
theorem Source.next_goes_on_or_stays (source : Source) (f : Features) (limit : Option ℤ)
    (requests : List Request) :
    (source.cursor.serveAll f limit requests).GoesOn source.bytes f limit := by
  obtain ⟨done, hdone⟩ := Cursor.passes_serveAll f limit source.cursor requests
  generalize source.cursor.serveAll f limit requests = cursor at hdone
  have hcursor : Cursor.StandsBehind source.bytes done cursor := hdone.standsBehind
  refine ⟨?_, ?_, ?_, ?_, ?_, ?_⟩
  · obtain ⟨count, middle, hdrops, hmiddle⟩ := Cursor.exists_drops f cursor
    exact ⟨count, middle, hdrops, hdrops.count_add_offset_le, hmiddle⟩
  · intro token later h
    exact Cursor.offset_lt_of_next h Bool.false_ne_true
  · intro e later h he
    exact Cursor.offset_lt_of_next h he
  · intro later h
    obtain ⟨taken, hpass⟩ := Cursor.passes_of_next h
    have hlater : Cursor.StandsBehind source.bytes (done ++ taken) later :=
      (hdone.trans hpass).standsBehind
    have hstays := Cursor.next_of_final h rfl
    refine ⟨(Cursor.skipped_of_next_none h).1, ?_, hlater.offset_of_next_none h, fun more => ?_⟩
    · obtain ⟨hrest, -⟩ := Cursor.rest_of_next_none h
      have htaken := hpass.1
      rw [hrest, List.append_nil] at htaken
      rw [htaken, ← hrest]
      exact hpass.2
    · exact ⟨Cursor.serveAll_of_final hstays rfl limit more, hstays⟩
  · intro cause offset position later h more
    have hstays := Cursor.next_of_final h rfl
    exact ⟨Cursor.serveAll_of_final hstays rfl limit more, hstays⟩
  · obtain ⟨count, result, hcount, hcalls⟩ := Cursor.exists_calls f cursor
    have hleft := hcursor.offset_add_length_le
    exact ⟨count, result, by omega, hcalls⟩

/-- Blanks before the end are passed over by the very call that tells the end. -/
theorem Source.next_none_moves_over_blank : ¬ ∀ (source : Source) (f : Features) (limit : Option ℤ)
    (requests : List Request) (later : Cursor),
    (source.cursor.serveAll f limit requests).next f = (.ok none, later) →
      later.offset = (source.cursor.serveAll f limit requests).offset ∧
        later.position = (source.cursor.serveAll f limit requests).position := by
  intro h
  have hnext : (ofText " ").cursor.next {} =
      (.ok none, { rest := [], offset := 1, position := ⟨1, 1⟩ }) := by
    decide +kernel
  obtain ⟨hoffset, -⟩ := h (ofText " ") {} none [] _ hnext
  cases hoffset

end SExpression
