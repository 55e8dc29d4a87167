import Paging.Json.Record

/-!
Pages of results: those of keyset and offset mode, which may carry cursors, and numbered ones, which carry
totals.
-/

namespace Paging

/-- A page with its neighbours. In offset mode neither cursor is there. -/
structure Page (α : Type) where
  items : List α
  hasNext : Bool
  hasPrevious : Bool
  nextCursor : Option String := none
  previousCursor : Option String := none
  totalCount : Option Nat := none
  deriving DecidableEq

namespace Page

def empty {α : Type} : Page α := { items := [], hasNext := false, hasPrevious := false, totalCount := some 0 }

def length {α : Type} (page : Page α) : Nat := page.items.length

def isEmpty {α : Type} (page : Page α) : Bool := page.items.isEmpty

def map {α β : Type} (f : α → β) (page : Page α) : Page β :=
  { page with items := page.items.map f }

def isDefaultEmpty {α : Type} (page : Page α) : Bool :=
  page.isEmpty && !page.hasNext && !page.hasPrevious && page.nextCursor.isNone &&
    page.previousCursor.isNone && page.totalCount == some 0

/-- A member that is left out where it has no value. -/
def optionalMember (name : String) (value : Option Json.Value) : List (String × Json.Value) :=
  match value with
  | some value => [(name, value)]
  | none => []

/-- A page in JSON. Cursors and the total are left out where there are none. -/
def toJson (page : Page Json.Value) : Json.Value :=
  .ofMembers ([("items", .array page.items), ("hasNextPage", .bool page.hasNext),
    ("hasPreviousPage", .bool page.hasPrevious)] ++
    optionalMember "nextCursor" (page.nextCursor.map .string) ++
    optionalMember "previousCursor" (page.previousCursor.map .string) ++
    optionalMember "totalCount" (page.totalCount.map .ofNat))

def ofDocument? (document : Json.Document) : Option (Page Json.Value) := do
  let record ← document.record?
    ["items", "hasNextPage", "hasPreviousPage", "nextCursor", "previousCursor", "totalCount"]
  let items ← record.field? "items" (·.list? Json.Document.value?)
  let hasNext ← record.field? "hasNextPage" Json.Document.flag?
  let hasPrevious ← record.field? "hasPreviousPage" Json.Document.flag?
  let nextCursor ← record.fieldOr? "nextCursor" none (·.nullable? Json.Document.text?)
  let previousCursor ← record.fieldOr? "previousCursor" none (·.nullable? Json.Document.text?)
  let totalCount ← record.fieldOr? "totalCount" none (·.nullable? Json.Document.nat?)
  return ⟨items, hasNext, hasPrevious, nextCursor, previousCursor, totalCount⟩

end Page

/-- A page by its number, the first page being page one. -/
structure NumberedPage (α : Type) where
  items : List α
  total : Nat
  page : Nat
  limit : Nat
  totalPages : Nat
  deriving DecidableEq

namespace NumberedPage

/-- The page with these totals. A page size of zero counts as one. -/
def of {α : Type} (items : List α) (total page limit : Nat) : NumberedPage α :=
  let limit := max limit 1
  ⟨items, total, page, limit, (total + limit - 1) / limit⟩

def hasNext {α : Type} (page : NumberedPage α) : Bool := decide (page.page < page.totalPages)

def hasPrevious {α : Type} (page : NumberedPage α) : Bool := decide (1 < page.page)

def map {α β : Type} (f : α → β) (page : NumberedPage α) : NumberedPage β :=
  { page with items := page.items.map f }

def toJson (page : NumberedPage Json.Value) : Json.Value :=
  .ofMembers [("items", .array page.items), ("total", .ofNat page.total), ("page", .ofNat page.page),
    ("limit", .ofNat page.limit), ("totalPages", .ofNat page.totalPages)]

def ofDocument? (document : Json.Document) : Option (NumberedPage Json.Value) := do
  let record ← document.record? ["items", "total", "page", "limit", "totalPages"]
  let items ← record.field? "items" (·.list? Json.Document.value?)
  let total ← record.field? "total" Json.Document.nat?
  let page ← record.field? "page" Json.Document.nat?
  let limit ← record.field? "limit" Json.Document.nat?
  let totalPages ← record.field? "totalPages" Json.Document.nat?
  return ⟨items, total, page, limit, totalPages⟩

end NumberedPage

end Paging
