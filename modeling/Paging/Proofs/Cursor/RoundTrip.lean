import Paging.Cursor
import Paging.Proofs.Calendar.RoundTrip
import Paging.Proofs.Json.RoundTrip
import Paging.Proofs.Text.Base64Url
import Paging.Proofs.Text.Uuid

/-!
Tokens lose nothing. The token of a cursor is read as the same cursor, except that a float that is no
finite number has no written value, so that a cursor to one has a token that is rejected.
-/

namespace Paging

namespace Scalar

/-- Neither an infinite float nor a NaN. -/
def isFinite : Scalar → Bool
  | .float value => value.isFinite
  | _ => true

theorem isFinite_of_ofNumber? {number : Json.Number} {scalar : Scalar}
    (h : ofNumber? number = some scalar) : scalar.isFinite = true := by
  cases number with
  | real value finite =>
    cases h
    exact finite
  | integer value lower upper =>
    rw [ofNumber?] at h
    split at h
    · cases h
      rfl
    · obtain ⟨float, hfloat, rfl⟩ := Option.map_eq_some_iff.mp h
      rw [Binary64.ofDecimal?, Binary64.ofMagnitude?] at hfloat
      split at hfloat
      · rename_i hfinite
        cases hfloat
        exact decide_eq_true hfinite
      · cases hfloat

/-- The scalars of JSON values are finite. -/
theorem isFinite_of_ofJson? {json : Json.Value} {scalar : Scalar} (h : ofJson? json = some scalar) :
    scalar.isFinite = true := by
  cases json with
  | number number => exact isFinite_of_ofNumber? h
  | string text =>
    cases h
    unfold ofText
    split
    · rfl
    split
    · rfl
    split <;> rfl
  | bool value =>
    cases h
    rfl
  | null => cases h
  | array items => cases h
  | object members => cases h

theorem ofNumber?_ofInt64 (value : Int64) : ofNumber? (.ofInt64 value) = some (.int value) := by
  have hupper : value.toInt < 9223372036854775808 := value.toInt_lt
  rw [Json.Number.ofInt64, ofNumber?, if_pos hupper, Int64.ofInt_toInt]

/-- The kind in a token says how its value is read. -/
theorem ofTokenJson?_toTokenJson (scalar : Scalar) :
    ofTokenJson? scalar.kind scalar.toTokenJson = if scalar.isFinite then some scalar else none := by
  cases scalar with
  | bool value => rfl
  | int value => exact ofNumber?_ofInt64 value
  | float value =>
    by_cases hfinite : value.isFinite = true
    · rw [toTokenJson, dif_pos hfinite, isFinite, if_pos hfinite]
      rfl
    · rw [toTokenJson, dif_neg hfinite, isFinite, if_neg hfinite]
      rfl
  | text value => rfl
  | date value =>
    rw [toTokenJson, kind, ofTokenJson?, Calendar.Date.ofText?_chars]
    rfl
  | dateTime value =>
    rw [toTokenJson, kind, ofTokenJson?, Calendar.DateTime.ofText?_chars]
    rfl
  | timestamp value =>
    rw [toTokenJson, kind, ofTokenJson?, Calendar.Instant.ofText?_chars]
    rfl
  | uuid value =>
    rw [toTokenJson, kind, ofTokenJson?, String.toList_ofList, Uuid.ofChars?_chars]
    rfl

/-- The value in a token is no array and no object. -/
theorem toTokenJson_flat (scalar : Scalar) :
    scalar.toTokenJson.depth = 0 ∧ scalar.toTokenJson.toDocument.value? = some scalar.toTokenJson := by
  fun_cases toTokenJson scalar <;> exact ⟨rfl, rfl⟩

theorem Kind.ofName?_name (kind : Kind) : ofName? kind.name = some kind := by
  cases kind <;> rfl

end Scalar

namespace Cursor

theorem depth_payload (cursor : Cursor) : cursor.payload.depth = 1 := by
  have hvalue := cursor.value.toTokenJson_flat.1
  simp [payload, Json.Value.depth, Json.Value.memberDepth, Json.Value.ofWord, hvalue]

theorem ofPayload?_payload (cursor : Cursor) :
    ofPayload? cursor.payload.toDocument = if cursor.value.isFinite then some cursor else none := by
  obtain ⟨field, scalar⟩ := cursor
  have hrecord : (payload ⟨field, scalar⟩).toDocument.record? ["version", "field", "kind", "value"] =
      some [("version", .number (some (.ofWord tokenVersion))), ("field", .string (some field)),
        ("kind", .string (some scalar.kind.name)), ("value", scalar.toTokenJson.toDocument)] := rfl
  rw [ofPayload?, hrecord]
  change (Scalar.Kind.ofName? scalar.kind.name).bind (fun kind =>
    scalar.toTokenJson.toDocument.value?.bind fun json =>
      (Scalar.ofTokenJson? kind json).bind fun value => some (⟨field, value⟩ : Cursor)) = _
  rw [Scalar.Kind.ofName?_name, Option.bind_some, scalar.toTokenJson_flat.2, Option.bind_some,
    Scalar.ofTokenJson?_toTokenJson]
  split <;> rfl

/-- Reading the token of a cursor, before any report. -/
theorem ofToken?_token_eq (cursor : Cursor) :
    ofToken? cursor.token = if cursor.value.isFinite then some cursor else none := by
  have hdepth : cursor.payload.depth ≤ Json.Document.maxDepth := by
    rw [depth_payload]
    decide
  have hdocument := Json.Value.ofBytes?_compact hdepth
  rw [utf8] at hdocument
  rw [ofToken?, token, String.toList_ofList, Base64Url.decode?_encode]
  change (Json.Document.ofBytes? _).bind ofPayload? = _
  rw [hdocument, Option.bind_some, ofPayload?_payload]

theorem ofToken?_token {cursor : Cursor} (hfinite : cursor.value.isFinite = true) :
    ofToken? cursor.token = some cursor := by
  rw [ofToken?_token_eq, if_pos hfinite]

theorem value_decode (token : String) : (decode token).value = ofToken? token := by
  unfold decode
  cases ofToken? token <;> rfl

theorem value_decode_token {cursor : Cursor} (hfinite : cursor.value.isFinite = true) :
    (decode cursor.token).value = some cursor := by
  rw [value_decode, ofToken?_token hfinite]

/--
The token of a cursor is decoded to the very same cursor, without a report. Where the value is an infinite
float or a NaN, there is nothing to decode, and the token is reported as rejected.
-/
theorem decode_token (cursor : Cursor) :
    decode cursor.token =
      if cursor.value.isFinite then ⟨some cursor, []⟩
      else ⟨none, [⟨.ambient, .tokenRejected cursor.token.utf8ByteSize⟩]⟩ := by
  rw [decode, ofToken?_token_eq]
  by_cases hfinite : cursor.value.isFinite = true
  · rw [if_pos hfinite, if_pos hfinite]
    rfl
  · rw [if_neg hfinite, if_neg hfinite]
    rfl

end Cursor

end Paging
