import Paging.Diagnostics
import Paging.Base64Url

/-!
Cursors and their tokens. A cursor is a position in an ordered result: a field and the value of it on a
boundary row. Its token is a JSON payload of a version, the field, the kind of the value and the value,
in URL-safe base64. Reading a token is total: what is no token of the current version is no cursor.
-/

namespace Paging

/-- A field and its value on a boundary row. -/
structure Cursor where
  field : String
  value : Scalar
  deriving DecidableEq

namespace Scalar

/--
The JSON value of a scalar inside a token: its canonical text, unless JSON has the value itself. Floats that
are not finite have none and become `null`.
-/
def toTokenJson : Scalar → Json.Value
  | .bool value => .bool value
  | .int value => .number (.ofInt64 value)
  | .float value => if h : value.isFinite = true then .number (.real value h) else .null
  | .text value => .string value
  | .date value => .string (String.ofList value.chars)
  | .dateTime value => .string (String.ofList value.chars)
  | .timestamp value => .string (String.ofList value.chars)
  | .uuid value => .string (String.ofList value.chars)

/-- The scalar of a kind that a JSON value inside a token stands for. Text is not looked into. -/
def ofTokenJson? : Kind → Json.Value → Option Scalar
  | .bool, .bool value => some (.bool value)
  | .number, .number value => ofNumber? value
  | .text, .string value => some (.text value)
  | .date, .string value => (Calendar.Date.ofText? value).map .date
  | .dateTime, .string value => (Calendar.DateTime.ofText? value).map .dateTime
  | .timestamp, .string value => (Calendar.Instant.ofText? value).map .timestamp
  | .uuid, .string value => (Uuid.ofChars? value.toList).map .uuid
  | _, _ => none

end Scalar

namespace Cursor

/-- Whether two cursors have the same field and values that are equal in order. -/
def Same (a b : Cursor) : Bool := a.field == b.field && a.value.Same b.value

def tokenVersion : UInt64 := 1

/-- The payload of a token, with its fields in their written order. -/
def payload (cursor : Cursor) : Json.Value :=
  .object [("version", .ofWord tokenVersion), ("field", .string cursor.field),
    ("kind", .string cursor.value.kind.name), ("value", cursor.value.toTokenJson)]

def token (cursor : Cursor) : String :=
  String.ofList (Base64Url.encode (cursor.payload.compact.flatMap String.utf8EncodeChar))

def ofPayload? (document : Json.Document) : Option Cursor := do
  let record ← document.record? ["version", "field", "kind", "value"]
  let version ← record.field? "version" Json.Document.word?
  let field ← record.field? "field" Json.Document.text?
  let kind ← record.field? "kind" fun document => document.choice?.bind Scalar.Kind.ofName?
  let json ← record.field? "value" Json.Document.value?
  if version = tokenVersion then
    let value ← Scalar.ofTokenJson? kind json
    return ⟨field, value⟩
  else none

/-- The cursor of a token, or `none` for a text that is no token. -/
def ofToken? (token : String) : Option Cursor := do
  let bytes ← Base64Url.decode? token.toList
  let document ← Json.Document.ofBytes? bytes
  ofPayload? document

/-- Reads a token, reporting one that is malformed. -/
def decode (token : String) : Logged (Option Cursor) :=
  match ofToken? token with
  | some cursor => pure (some cursor)
  | none => do
    Logged.report (.tokenRejected token.utf8ByteSize)
    return none

structure InvalidToken where
  deriving DecidableEq, Repr

def InvalidToken.message (_ : InvalidToken) : String := "invalid cursor format"

/-- A cursor is written in JSON as its token. -/
def toJson (cursor : Cursor) : Json.Value := .string cursor.token

def ofText (text : String) : Logged (Except InvalidToken Cursor) := do
  match ← decode text with
  | some cursor => return .ok cursor
  | none => return .error {}

end Cursor

end Paging
