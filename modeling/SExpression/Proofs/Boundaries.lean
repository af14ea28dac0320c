import SExpression.Proofs.Layout

/-! Cursors stand between characters. Whatever is asked of a reader, and also after errors, the
bytes behind its cursor encode the text that it has passed over, its position counts that text, and
the bytes ahead decode to what is left. -/
namespace SExpression

namespace Cursor

/-- The cursor stands behind the text in the bytes. -/
structure StandsBehind (bytes : Bytes) (done : Text) (cursor : Cursor) : Prop where
  isScalar : ∀ c ∈ done, c.IsScalar
  offset_eq : cursor.offset = done.encode.length
  offset_le : cursor.offset ≤ bytes.length
  take_eq : bytes.take cursor.offset = done.encode
  decode_take : Utf8.decode (bytes.take cursor.offset) = { text := done }
  position_eq : cursor.position = ({} : Position).advanceOver done
  decode_drop : Utf8.decode (bytes.drop cursor.offset) = ⟨cursor.rest, cursor.fault⟩

/-- From the start of the bytes, a cursor stands behind what it has passed over. -/
theorem Passes.standsBehind {bytes : Bytes} {done : Text} {cursor : Cursor}
    (h : (ofBytes bytes).Passes done cursor) : StandsBehind bytes done cursor := by
  have hwhole : (Utf8.decode bytes).text = done ++ cursor.rest := h.1
  have hfault : cursor.fault = (Utf8.decode bytes).fault := h.fault_eq
  have hoffset : cursor.offset = done.encode.length := by
    rw [h.offset_eq]
    exact Nat.zero_add _
  have hscalar : ∀ c ∈ done ++ cursor.rest, c.IsScalar := by
    rw [← hwhole]
    exact Utf8.isScalar_of_mem_decode
  rw [List.forall_mem_append] at hscalar
  obtain ⟨tail, hbytes, htail⟩ := Utf8.exists_decode_eq bytes
  rw [hwhole, Text.encode_append, List.append_assoc] at hbytes
  have htake : bytes.take cursor.offset = done.encode := by
    rw [hoffset, hbytes]
    exact List.take_left' rfl
  refine ⟨hscalar.1, hoffset, ?_, htake, ?_, h.position_eq, ?_⟩
  · rw [hoffset, hbytes, List.length_append]
    omega
  · rw [htake]
    exact Utf8.decode_encode hscalar.1
  · have hdrop : bytes.drop cursor.offset = cursor.rest.encode ++ tail := by
      rw [hoffset, hbytes]
      exact List.drop_left' rfl
    rw [hdrop, Utf8.decode_encode_append hscalar.2, htail, hfault, List.append_nil]

/-- Where a cursor is stopped by the data, the reader of single sequences meets the same fault. -/
theorem StandsBehind.decodeAt?_eq {bytes : Bytes} {done : Text} {cursor : Cursor}
    (h : StandsBehind bytes done cursor) :
    Utf8.decodeAt? bytes cursor.offset = Utf8.Decoded.first? ⟨cursor.rest, cursor.fault⟩ := by
  rw [Utf8.decodeAt?_eq h.offset_le, h.decode_drop]

theorem StandsBehind.decodeAt?_ne_pastEnd {bytes : Bytes} {done : Text} {cursor : Cursor}
    (h : StandsBehind bytes done cursor) :
    Utf8.decodeAt? bytes cursor.offset ≠ .error .pastEnd := by
  have hne := Utf8.fault_ne_pastEnd (bytes.drop cursor.offset)
  rw [h.decode_drop] at hne
  rw [h.decodeAt?_eq]
  intro hpast
  unfold Utf8.Decoded.first? at hpast
  split at hpast
  · cases hpast
  · cases hpast
  next hfault =>
    cases hpast
    simp_all

/-- The cursor comes to `later` over characters of the bytes: looking ahead before each of them
sees just that one and never past the end, and the bytes of every part of them decode to it. -/
structure Crosses (bytes : Bytes) (cursor : Cursor) (taken : Text) (later : Cursor) : Prop where
  offset_le : cursor.offset ≤ later.offset
  decodeAt?_eq : ∀ (before : Text) c after, taken = before ++ c :: after →
    Utf8.decodeAt? bytes (cursor.offset + before.encode.length) = .ok (some (c, c.encode.length))
  decodeAt?_ne : Utf8.decodeAt? bytes later.offset ≠ .error .pastEnd
  decode_slice : ∀ before part after : Text, taken = before ++ part ++ after →
    Utf8.decode ((bytes.drop (cursor.offset + before.encode.length)).take part.encode.length) =
      { text := part }

theorem Passes.crosses {bytes : Bytes} {done taken : Text} {cursor later : Cursor}
    (hcursor : (ofBytes bytes).Passes done cursor) (htaken : cursor.Passes taken later) :
    Crosses bytes cursor taken later := by
  have hlater := (hcursor.trans htaken).standsBehind
  refine ⟨?_, ?_, hlater.decodeAt?_ne_pastEnd, ?_⟩
  · rw [htaken.offset_eq]
    exact Nat.le_add_right _ _
  · rintro before c after rfl
    have hmiddle : cursor.Passes before (cursor.pass before (c :: after ++ later.rest)) :=
      passes_pass (by rw [htaken.1, List.append_assoc])
    exact (hcursor.trans hmiddle).standsBehind.decodeAt?_eq
  · rintro before part after rfl
    have hpart : ∀ c ∈ part, c.IsScalar := fun c hc => hlater.isScalar c (by simp [hc])
    have hbytes : bytes =
        (done ++ before).encode ++ (part.encode ++ (after.encode ++ bytes.drop later.offset)) := by
      conv_lhs => rw [← List.take_append_drop later.offset bytes, hlater.take_eq]
      simp only [Text.encode_append, List.append_assoc]
    have hstart : cursor.offset + before.encode.length = (done ++ before).encode.length := by
      rw [hcursor.standsBehind.offset_eq, Text.encode_append, List.length_append]
    rw [hstart, hbytes, List.drop_left, List.take_left]
    exact Utf8.decode_encode hpart

theorem Fails.badData_of_standsBehind {bytes : Bytes} {done : Text} {cursor later : Cursor}
    {cause : Utf8.DecodeError} {offset : ℕ} {position : Position}
    (h : cursor.Fails (.badData cause offset position) later)
    (hlater : StandsBehind bytes done later) :
    offset = later.offset ∧ position = later.position ∧
      Utf8.decodeAt? bytes offset = .error cause := by
  cases h with
  | badData _ hrest hfault =>
    refine ⟨rfl, rfl, ?_⟩
    rw [hlater.decodeAt?_eq, hrest, hfault]
    rfl

end Cursor

/-- Whatever was asked of a reader before, a further request takes its cursor from one boundary
of the characters to another, with valid text between, and never past the end of the bytes. -/
theorem Source.request_between_boundaries (source : Source) (f : Features) (limit : Option ℤ)
    (requests : List Request) (request : Request) :
    let cursor := source.cursor.serveAll f limit requests
    let later := cursor.serve f limit request
    ∃ done taken, Cursor.StandsBehind source.bytes done cursor ∧
      Cursor.StandsBehind source.bytes (done ++ taken) later ∧
      Cursor.Crosses source.bytes cursor taken later ∧
      (∀ token, cursor.next f = (.ok (some token), later) →
        ∃ gap, taken = gap ++ token.lexeme.spelling) ∧
      ∀ cause offset position,
        cursor.tokenError? f limit request = some (.badData cause offset position) →
          cause ≠ .pastEnd ∧ offset = later.offset ∧ position = later.position ∧
            Utf8.decodeAt? source.bytes offset = .error cause := by
  intro cursor later
  obtain ⟨done, hdone⟩ := Cursor.passes_serveAll f limit source.cursor requests
  obtain ⟨taken, htaken⟩ := Cursor.passes_serve f limit cursor request
  have hlater : Cursor.StandsBehind source.bytes (done ++ taken) later :=
    (hdone.trans htaken).standsBehind
  have hcrosses : Cursor.Crosses source.bytes cursor taken later := hdone.crosses htaken
  refine ⟨done, taken, hdone.standsBehind, hlater, hcrosses, ?_, ?_⟩
  · intro token hnext
    obtain ⟨-, gap, -, hpass, -⟩ := Cursor.skipped_of_next_some hnext
    exact ⟨gap, List.append_cancel_right (htaken.1.symm.trans hpass.1)⟩
  · intro cause offset position herror
    obtain ⟨rfl, rfl, hcause⟩ := (Cursor.fails_serve herror).badData_of_standsBehind hlater
    refine ⟨?_, rfl, rfl, hcause⟩
    rintro rfl
    exact hcrosses.decodeAt?_ne hcause

end SExpression
