import Paging.Proofs.Cursor.RoundTrip

/-!
The canonical form of tokens. Many texts are read as one cursor: their payloads may be arrays, or objects with
their members in any order, and may write dates, instants, identifiers and numbers in more than one way. Every
one of them is read as a cursor whose own token is read as that cursor again.
-/

namespace Paging

namespace Scalar

theorem kind_of_ofNumber? {number : Json.Number} {scalar : Scalar} (h : ofNumber? number = some scalar) :
    scalar.kind = .number := by
  cases number with
  | real value finite =>
    cases h
    rfl
  | integer value lower upper =>
    rw [ofNumber?] at h
    split at h
    · cases h
      rfl
    · obtain ⟨float, _, rfl⟩ := Option.map_eq_some_iff.mp h
      rfl

/-- What is read from a token is finite, and of the kind that the token names. -/
theorem finite_of_ofTokenJson? {kind : Kind} {json : Json.Value} {scalar : Scalar}
    (h : ofTokenJson? kind json = some scalar) : scalar.isFinite = true ∧ scalar.kind = kind := by
  unfold ofTokenJson? at h
  split at h
  case h_1 => cases h; exact ⟨rfl, rfl⟩
  case h_2 => exact ⟨isFinite_of_ofNumber? h, kind_of_ofNumber? h⟩
  case h_3 => cases h; exact ⟨rfl, rfl⟩
  case h_8 => cases h
  -- What remains are the kinds whose text is parsed.
  all_goals
    obtain ⟨_, _, rfl⟩ := Option.map_eq_some_iff.mp h
    exact ⟨rfl, rfl⟩

end Scalar

namespace Cursor

/-- The kind that the payload of a token names, whatever its value is. -/
def tag? (token : String) : Option Scalar.Kind := do
  let bytes ← Base64Url.decode? token.toList
  let document ← Json.Document.ofBytes? bytes
  let record ← document.record? ["version", "field", "kind", "value"]
  record.field? "kind" fun document => document.choice?.bind Scalar.Kind.ofName?

theorem exists_of_ofToken? {token : String} {cursor : Cursor} (h : ofToken? token = some cursor) :
    ∃ kind json, tag? token = some kind ∧ Scalar.ofTokenJson? kind json = some cursor.value := by
  simp only [ofToken?, ofPayload?, Option.bind_eq_bind, Option.bind_eq_some_iff] at h
  obtain ⟨bytes, hbytes, document, hdocument, record, hrecord, version, hversion, field, hfield, kind, hkind,
    json, hjson, h⟩ := h
  obtain ⟨_, h⟩ := Option.ite_none_right_eq_some.mp h
  obtain ⟨value, hvalue, ⟨⟩⟩ := Option.bind_eq_some_iff.mp h
  refine ⟨kind, json, ?_, hvalue⟩
  simp only [tag?, hbytes, hdocument, hrecord, hkind, Option.bind_eq_bind, Option.bind_some]

/-- A cursor that is read from a token is finite, and of the kind that the token names. -/
theorem finite_of_ofToken? {token : String} {cursor : Cursor} (h : ofToken? token = some cursor) :
    cursor.value.isFinite = true ∧ tag? token = some cursor.value.kind := by
  obtain ⟨kind, json, htag, hvalue⟩ := exists_of_ofToken? h
  obtain ⟨hfinite, rfl⟩ := Scalar.finite_of_ofTokenJson? hvalue
  exact ⟨hfinite, htag⟩

theorem value_ofText (text : String) :
    (ofText text).value = match ofToken? text with
      | some cursor => .ok cursor
      | none => .error {} := by
  rw [ofText, Logged.value_bind, value_decode]
  cases ofToken? text <;> rfl

/-- Both ways to read a text as a cursor accept the same texts. -/
theorem value_ofText_eq_ok_iff {text : String} {cursor : Cursor} :
    (ofText text).value = .ok cursor ↔ (decode text).value = some cursor := by
  rw [value_ofText, value_decode]
  cases ofToken? text <;> simp

/--
Whatever text is read as a cursor, the value is finite and of the kind that the text names, and the token of
the cursor is read as that very cursor, so that it is its own token.
-/
theorem decode_token_of_accepted {text : String} {cursor : Cursor}
    (h : (decode text).value = some cursor ∨ (ofText text).value = .ok cursor) :
    cursor.value.isFinite = true ∧ tag? text = some cursor.value.kind ∧
      (decode cursor.token).value = some cursor ∧ (ofText cursor.token).value = .ok cursor ∧
      (decode cursor.token).value.map token = some cursor.token ∧
      (ofText cursor.token).value.map token = .ok cursor.token := by
  have hread : (decode text).value = some cursor := h.elim id value_ofText_eq_ok_iff.mp
  rw [value_decode] at hread
  obtain ⟨hfinite, htag⟩ := finite_of_ofToken? hread
  have hdecode : (decode cursor.token).value = some cursor := value_decode_token hfinite
  have hofText : (ofText cursor.token).value = .ok cursor := value_ofText_eq_ok_iff.mpr hdecode
  refine ⟨hfinite, htag, hdecode, hofText, ?_, ?_⟩
  · rw [hdecode, Option.map_some]
  · rw [hofText]
    rfl

/--
The payload `[1, "at", "timestamp", "2024-06-01 12:30:60.50+05:30[Asia/Kolkata]"]`, an array with an instant
that has a leap second, a trailing zero and a zone, and the token of the same instant as it is written.
-/
theorem decode_token_of_loose_payload :
    let loose := "WzEsICJhdCIsICJ0aW1lc3RhbXAiLCAiMjAyNC0wNi0wMSAxMjozMDo2MC41MCswNTozMFtBc2lhL0tvbGthdGFdIl0"
    let cursor : Cursor := ⟨"at", .timestamp ⟨1717225259500000000, by decide, by decide⟩⟩
    (decode loose).value = some cursor ∧ tag? loose = some .timestamp ∧ cursor.token ≠ loose ∧
      (decode cursor.token).value = some cursor ∧
      (decode cursor.token).value.map token = some cursor.token := by
  intro loose cursor
  have hread : (decode loose).value = some cursor := by
    rw [value_decode]
    decide +kernel
  obtain ⟨_, htag, hdecode, _, hagain, _⟩ := decode_token_of_accepted (Or.inl hread)
  exact ⟨hread, htag, by decide +kernel, hdecode, hagain⟩

end Cursor

end Paging
