import Paging.Policy

/-!
Requests for one page, and drafts that are filled in step by step. A request is in keyset mode, where it
goes on after a cursor token, or in offset mode, where it skips a number of rows.
-/

namespace Paging

/-- The field that breaks ties where a request names no other. -/
def defaultTieBreaker : String := "id"

structure Request where
  sort : SortKey
  limit : Option UInt64 := none
  cursor : Option String := none
  offset : Option UInt64 := none
  offsetMode : Bool := false
  tieBreaker : SortKey := .asc defaultTieBreaker
  includeCount : Option Bool := none
  deriving DecidableEq, Repr

namespace Request

def withLimit (request : Request) (limit : UInt64) : Request := { request with limit := some limit }

def withCursor (request : Request) (token : String) : Request := { request with cursor := some token }

/-- Skips rows by number, which puts the request in offset mode. -/
def withOffset (request : Request) (offset : UInt64) : Request :=
  { request with offset := some offset, offsetMode := true }

def withTieBreaker (request : Request) (key : SortKey) : Request := { request with tieBreaker := key }

def withCount (request : Request) (includeCount : Bool) : Request :=
  { request with includeCount := some includeCount }

def limitWithin (request : Request) (default bound : Nat) : Nat :=
  clampPageSize ((request.limit.map UInt64.toNat).getD default) bound

def pageSize (request : Request) : Nat := request.limitWithin defaultPageSize maxPageSize

def pageSizeUnder (request : Request) (policy : Policy) : Nat :=
  request.limitWithin policy.defaultLimit.toNat policy.maxLimit.toNat

def skipped (request : Request) : Nat := (request.offset.map UInt64.toNat).getD 0

def hasCursor (request : Request) : Bool := request.cursor.isSome

def countsUnder (request : Request) (policy : Policy) : Bool :=
  request.includeCount.getD policy.includeCount

def fieldNames : List String :=
  ["sort", "limit", "cursor", "offset", "useOffsetFallback", "tieBreaker", "includeCount"]

/-- A request in JSON. What it leaves open is written as `null`. -/
def toJson (request : Request) : Json.Value :=
  .ofMembers [("sort", request.sort.toJson), ("limit", .ofOption (request.limit.map .ofWord)),
    ("cursor", .ofOption (request.cursor.map .string)),
    ("offset", .ofOption (request.offset.map .ofWord)),
    ("useOffsetFallback", .bool request.offsetMode), ("tieBreaker", request.tieBreaker.toJson),
    ("includeCount", .ofOption (request.includeCount.map .bool))]

/-- Reads a request. Only the sort key is required. -/
def ofDocument? (document : Json.Document) : Option Request := do
  let record ← document.record? fieldNames
  let sort ← record.field? "sort" SortKey.ofDocument?
  let limit ← record.fieldOr? "limit" none (·.nullable? Json.Document.word?)
  let cursor ← record.fieldOr? "cursor" none (·.nullable? Json.Document.text?)
  let offset ← record.fieldOr? "offset" none (·.nullable? Json.Document.word?)
  let offsetMode ← record.fieldOr? "useOffsetFallback" false Json.Document.flag?
  let tieBreaker ← record.fieldOr? "tieBreaker" (.asc defaultTieBreaker) SortKey.ofDocument?
  let includeCount ← record.fieldOr? "includeCount" none (·.nullable? Json.Document.flag?)
  return ⟨sort, limit, cursor, offset, offsetMode, tieBreaker, includeCount⟩

/-- A request that is not filled in yet. -/
structure Draft where
  sort : Option SortKey := none
  limit : Option UInt64 := none
  cursor : Option String := none
  offset : Option UInt64 := none
  offsetMode : Option Bool := none
  tieBreaker : Option SortKey := none
  includeCount : Option Bool := none
  deriving DecidableEq, Repr

/-- A draft cannot be finished without a required field. -/
inductive DraftError
  | uninitialized (field : String)
  deriving DecidableEq, Repr

def DraftError.message : DraftError → String
  | .uninitialized field => "Field not initialized: " ++ field

namespace Draft

def withSort (draft : Draft) (key : SortKey) : Draft := { draft with sort := some key }

def withLimit (draft : Draft) (limit : UInt64) : Draft := { draft with limit := some limit }

def withCursor (draft : Draft) (token : String) : Draft := { draft with cursor := some token }

/-- Sets the number of rows to skip, and leaves the mode as it is. -/
def withOffset (draft : Draft) (offset : UInt64) : Draft := { draft with offset := some offset }

def withOffsetMode (draft : Draft) (offsetMode : Bool) : Draft :=
  { draft with offsetMode := some offsetMode }

def withTieBreaker (draft : Draft) (key : SortKey) : Draft := { draft with tieBreaker := some key }

def withCount (draft : Draft) (includeCount : Bool) : Draft :=
  { draft with includeCount := some includeCount }

def build (draft : Draft) : Except DraftError Request :=
  match draft.sort with
  | none => .error (.uninitialized "sort")
  | some sort => .ok
    { sort := sort
      limit := draft.limit
      cursor := draft.cursor
      offset := draft.offset
      offsetMode := draft.offsetMode.getD false
      tieBreaker := draft.tieBreaker.getD (.asc defaultTieBreaker)
      includeCount := draft.includeCount }

end Draft

end Request

end Paging
