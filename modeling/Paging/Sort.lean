import Paging.Scalar.Basic
import Paging.Json.Record

/-!
Sort keys and the order of rows. A list of sort keys compares rows lexicographically. A row without a value
for a field comes after those with one, before the direction of the key is applied to the comparison.
-/

namespace Paging

inductive Direction
  | ascending
  | descending
  deriving DecidableEq, Repr

namespace Direction

def name : Direction → String
  | .ascending => "asc"
  | .descending => "desc"

def ofName? (name : String) : Option Direction :=
  if name = "asc" then some .ascending
  else if name = "desc" then some .descending
  else none

def flip : Direction → Direction
  | .ascending => .descending
  | .descending => .ascending

def apply : Direction → Ordering → Ordering
  | .ascending, ordering => ordering
  | .descending, ordering => ordering.swap

end Direction

structure SortKey where
  field : String
  direction : Direction
  deriving DecidableEq, Repr

/-- Rows, which may have a scalar under the name of a field. -/
class Row (ρ : Type) where
  value? : ρ → String → Option Scalar

namespace SortKey

def asc (field : String) : SortKey := ⟨field, .ascending⟩

def desc (field : String) : SortKey := ⟨field, .descending⟩

def text (key : SortKey) : String := key.field ++ " " ++ key.direction.name

def toJson (key : SortKey) : Json.Value :=
  .ofMembers [("field", .string key.field), ("order", .string key.direction.name)]

/-- A sort key is ascending where its direction is left out. -/
def ofDocument? (document : Json.Document) : Option SortKey := do
  let record ← document.record? ["field", "order"]
  let field ← record.field? "field" Json.Document.text?
  let direction ← record.fieldOr? "order" .ascending fun document =>
    document.choice?.bind Direction.ofName?
  return ⟨field, direction⟩

/-- Present values in their order, and missing ones after them. -/
def compareValues : Option Scalar → Option Scalar → Ordering
  | some a, some b => compare a b
  | some _, none => .lt
  | none, some _ => .gt
  | none, none => .eq

/-- Compares the values of rows under a list of sort keys, taken from the rows in the same order. -/
def compareAll : List SortKey → List (Option Scalar) → List (Option Scalar) → Ordering
  | key :: keys, a :: as, b :: bs =>
    (key.direction.apply (compareValues a b)).then (compareAll keys as bs)
  | _, _, _ => .eq

def values {ρ : Type} [Row ρ] (keys : List SortKey) (row : ρ) : List (Option Scalar) :=
  keys.map fun key => Row.value? row key.field

/-- Sorts rows by a list of sort keys, keeping rows that compare equal in their order. -/
def sort {ρ : Type} [Row ρ] (keys : List SortKey) (rows : List ρ) : List ρ :=
  let keyed := rows.map fun row => (values keys row, row)
  (keyed.mergeSort fun a b => (compareAll keys a.1 b.1).isLE).map (·.2)

end SortKey

end Paging
