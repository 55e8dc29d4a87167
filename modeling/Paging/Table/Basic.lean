import Paging.Diagnostics

/-!
Tables of rows held in memory. A table of JSON rows is read from an array of objects.
-/

namespace Paging

/-- A row that is a JSON object: its fields are the members with scalar values. -/
instance : Row Json.Object where
  value? object field := (object.get? field).bind Scalar.ofJson?

/-- Of JSON values only objects have fields. -/
instance : Row Json.Value where
  value? value field := (value.get? field).bind Scalar.ofJson?

/-- A row of scalars under the names of fields. -/
structure TypedRow where
  index : Nat
  fields : List (String × Scalar)

instance : Row TypedRow where
  value? row field := row.fields.lookup field

/-- The rows of a table, in the order they are stored in. -/
structure Table (ρ : Type) where
  rows : List ρ

inductive TableError
  | invalidJson
  | notAnArray
  | notAnObject (index : Nat)
  deriving DecidableEq, Repr

/-- The text of an error. What is wrong with text that is no JSON is not told. -/
def TableError.message : TableError → String
  | .invalidJson => "Invalid JSON:"
  | .notAnArray => "Invalid rows: expected a JSON array of objects"
  | .notAnObject index => "Invalid rows: element " ++ index.repr ++ " is not an object"

namespace Table

variable {ρ : Type}

def length (table : Table ρ) : Nat := table.rows.length

def isEmpty (table : Table ρ) : Bool := table.rows.isEmpty

/-- The objects of a list of JSON values, counted from `index`, up to the first that is none. -/
def objects (index : Nat) : List Json.Value → Except TableError (List Json.Object)
  | [] => .ok []
  | .object members :: rest =>
    match objects (index + 1) rest with
    | .ok rows => .ok (members :: rows)
    | .error error => .error error
  | _ :: _ => .error (.notAnObject index)

def ofJson (value : Json.Value) : Logged (Except TableError (Table Json.Object)) :=
  match value with
  | .array items =>
    match objects 0 items with
    | .ok rows => do
      Logged.report (.rowsLoaded rows.length)
      return .ok ⟨rows⟩
    | .error error => return .error error
  | _ => return .error .notAnArray

def ofText (text : String) : Logged (Except TableError (Table Json.Object)) :=
  match Json.Value.ofText? text with
  | some value => ofJson value
  | none => return .error .invalidJson

end Table

end Paging
