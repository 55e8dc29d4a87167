import Paging.Json.Document

/-!
Records: documents read as the fields of a structure. A record is written as an object, in any order and
with any further members, or as an array of its fields in their order, the last of which may be left out.
A field that is not there has its default where it has one. Repeating a field is a fault.
-/

namespace Paging.Json

/-- The documents under the names of a record's fields, each name at most once. -/
abbrev Record := List (String × Document)

namespace Document

/-- The members of an object whose keys are all text. -/
def keyed? : List (Option String × Document) → Option (List (String × Document))
  | [] => some []
  | (some key, item) :: rest => (keyed? rest).map ((key, item) :: ·)
  | (none, _) :: _ => none

/-- The fields of these names in a document. -/
def record? (names : List String) : Document → Option Record
  | .array items => if items.length ≤ names.length then some (names.zip items) else none
  | .object members =>
    match keyed? members with
    | none => none
    | some members =>
      let known := members.filter fun member => names.contains member.1
      if (known.map (·.1)).Nodup then some known else none
  | _ => none

def text? : Document → Option String
  | .string value => value
  | _ => none

def flag? : Document → Option Bool
  | .bool value => some value
  | _ => none

/-- An unsigned integer of 64 bits. -/
def word? : Document → Option UInt64
  | .number (some value) => value.word?
  | _ => none

/-- An unsigned integer of 64 bits as a natural number. -/
def nat? (document : Document) : Option Nat := document.word?.map UInt64.toNat

/-- `null` for nothing, and anything else as `read` says. -/
def nullable? {α : Type} (read : Document → Option α) : Document → Option (Option α)
  | .null => some none
  | document => (read document).map some

/-- The name of a choice: a string, or an object of one member whose value is `null`. -/
def choice? : Document → Option String
  | .string value => value
  | .object [(key, .null)] => key
  | _ => none

/-- All items of an array as `read` says. -/
def list? {α : Type} (read : Document → Option α) : Document → Option (List α)
  | .array items => items.mapM read
  | _ => none

end Document

namespace Record

/-- A field that must be there. -/
def field? {α : Type} (record : Record) (name : String) (read : Document → Option α) : Option α :=
  match record.lookup name with
  | some document => read document
  | none => none

/-- A field that has a default. A field that is there and unreadable is still a fault. -/
def fieldOr? {α : Type} (record : Record) (name : String) (default : α)
    (read : Document → Option α) : Option α :=
  match record.lookup name with
  | some document => read document
  | none => some default

end Record

end Paging.Json
