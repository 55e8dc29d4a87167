import Paging.Json.Token

/-!
JSON documents as read from text. A document keeps the members of an object in their written order
with repeated keys, and it keeps a place for each part that is no value: a number out of range, a string
that is no text, an array or object nested too deep. Reading such a part as a value fails and skipping it
does not, so documents decide nothing that depends on which parts a reader wants.
-/

namespace Paging.Json

inductive Document
  | null
  | bool (value : Bool)
  | number (value : Option Number)
  | string (value : Option String)
  | array (items : List Document)
  | object (members : List (Option String × Document))
  | tooDeep
  deriving Repr, Inhabited

namespace Document

/-- How many arrays and objects may enclose one another. -/
def maxDepth : Nat := 127

/-- An array or object that is still open: what it holds so far, the last item first. -/
inductive Frame
  | array (items : List Document)
  | object (members : List (Option String × Document)) (key : Option String)

/--
A document in the making. Each state but `done` holds the open arrays and objects, the innermost first.
-/
inductive Assembly
  /-- A value must follow. -/
  | atValue (frames : List Frame)
  /-- An array was just opened: a value or the end must follow. -/
  | atFirstItem (frames : List Frame)
  /-- An object was just opened: a key or the end must follow. -/
  | atFirstKey (frames : List Frame)
  /-- A key must follow the members read so far. -/
  | atKey (members : List (Option String × Document)) (frames : List Frame)
  /-- A colon must follow the key just read. -/
  | atColon (members : List (Option String × Document)) (key : Option String) (frames : List Frame)
  /-- A value was put into the innermost frame: a comma or the end of that frame must follow. -/
  | afterItem (frame : Frame) (frames : List Frame)
  /-- The document is whole. -/
  | done (document : Document)

def Assembly.place (document : Document) : List Frame → Assembly
  | [] => .done document
  | .array items :: frames => .afterItem (.array (document :: items)) frames
  | .object members key :: frames => .afterItem (.object ((key, document) :: members) key) frames

/-- Puts a closed array or object where the open frames want it, if it is not nested too deep. -/
def Assembly.close (document : Document) (frames : List Frame) : Assembly :=
  .place (if frames.length < maxDepth then document else .tooDeep) frames

def Assembly.start? (frames : List Frame) : Token → Option Assembly
  | .null => some (.place .null frames)
  | .bool value => some (.place (.bool value) frames)
  | .number value => some (.place (.number value) frames)
  | .string value => some (.place (.string value) frames)
  | .arrayStart => some (.atFirstItem frames)
  | .objectStart => some (.atFirstKey frames)
  | _ => none

def Assembly.step? : Assembly → Token → Option Assembly
  | .atValue frames, token => Assembly.start? frames token
  | .atFirstItem frames, .arrayEnd => some (.close (.array []) frames)
  | .atFirstItem frames, token => Assembly.start? (.array [] :: frames) token
  | .atFirstKey frames, .objectEnd => some (.close (.object []) frames)
  | .atFirstKey frames, .string key => some (.atColon [] key frames)
  | .atKey members frames, .string key => some (.atColon members key frames)
  | .atColon members key frames, .colon => some (.atValue (.object members key :: frames))
  | .afterItem (.array items) frames, .comma => some (.atValue (.array items :: frames))
  | .afterItem (.array items) frames, .arrayEnd => some (.close (.array items.reverse) frames)
  | .afterItem (.object members _) frames, .comma => some (.atKey members frames)
  | .afterItem (.object members _) frames, .objectEnd => some (.close (.object members.reverse) frames)
  | _, _ => none

/-- The document that a list of tokens spells out, all of them used. -/
def ofTokens? (tokens : List Token) : Option Document :=
  match tokens.foldlM Assembly.step? (.atValue []) with
  | some (.done document) => some document
  | _ => none

def ofBytes? (bytes : List UInt8) : Option Document :=
  (Token.scan? bytes).bind ofTokens?

mutual

/-- The value of a document, where every part of it has one. The last of repeated members stays. -/
def value? : Document → Option Value
  | .null => some .null
  | .bool value => some (.bool value)
  | .number value => value.map .number
  | .string value => value.map .string
  | .array items => (values? items).map .array
  | .object members => (members? members).map .ofMembers
  | .tooDeep => none

def values? : List Document → Option (List Value)
  | [] => some []
  | item :: rest =>
    match value? item, values? rest with
    | some value, some values => some (value :: values)
    | _, _ => none

/-- The members of an object with their values, in written order. -/
def members? : List (Option String × Document) → Option (List (String × Value))
  | [] => some []
  | (key, item) :: rest =>
    match key, value? item, members? rest with
    | some key, some value, some members => some ((key, value) :: members)
    | _, _, _ => none

end

end Document

namespace Value

mutual

def toDocument : Value → Document
  | .null => .null
  | .bool value => .bool value
  | .number value => .number (some value)
  | .string value => .string (some value)
  | .array items => .array (toDocuments items)
  | .object members => .object (toMembers members)

def toDocuments : List Value → List Document
  | [] => []
  | item :: rest => toDocument item :: toDocuments rest

def toMembers : List (String × Value) → List (Option String × Document)
  | [] => []
  | (key, item) :: rest => (some key, toDocument item) :: toMembers rest

end

def ofBytes? (bytes : List UInt8) : Option Value := (Document.ofBytes? bytes).bind Document.value?

def ofText? (text : String) : Option Value := ofBytes? text.toByteArray.data.toList

end Value

end Paging.Json
