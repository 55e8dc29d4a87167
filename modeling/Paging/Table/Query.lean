import Paging.Table.Basic
import Paging.Source

/-!
Queries over a table. Filters join by conjunction, sort keys compare lexicographically and sort stably, and
skip and take win over offset and limit. A query can be told to do without counting or to fail, which stands
in for a store that cannot count or cannot be reached.
-/

namespace Paging

/-- What a query can be made to fail at. -/
inductive Operation
  | count
  | execute
  deriving DecidableEq, Repr

def Operation.name : Operation → String
  | .count => "count"
  | .execute => "execute"

/-- The failure that a query was told to report. -/
inductive QueryError
  | injected (operation : Operation)
  deriving DecidableEq, Repr

def QueryError.message : QueryError → String
  | .injected operation => "Injected " ++ operation.name ++ " failure"

namespace Table

structure Query (ρ : Type) where
  rows : List ρ
  filters : List RangeFilter := []
  keys : List SortKey := []
  limit : Option Nat := none
  offset : Option Nat := none
  skip : Option Nat := none
  take : Option Nat := none
  countable : Bool := true
  failure : Option Operation := none

def query {ρ : Type} (table : Table ρ) : Query ρ := { rows := table.rows }

namespace Query

variable {ρ : Type}

def restrict (query : Query ρ) (filter : RangeFilter) : Query ρ :=
  { query with filters := query.filters ++ [filter] }

def orderBy (query : Query ρ) (key : SortKey) : Query ρ := { query with keys := [key] }

def thenBy (query : Query ρ) (key : SortKey) : Query ρ := { query with keys := query.keys ++ [key] }

def withLimit (query : Query ρ) (limit : Nat) : Query ρ := { query with limit := some limit }

def withOffset (query : Query ρ) (offset : Nat) : Query ρ := { query with offset := some offset }

def withSkip (query : Query ρ) (skip : Nat) : Query ρ := { query with skip := some skip }

def withTake (query : Query ρ) (take : Nat) : Query ρ := { query with take := some take }

def withoutCount (query : Query ρ) : Query ρ := { query with countable := false }

/-- Fails at an operation, and only at that. -/
def failing (query : Query ρ) (operation : Operation) : Query ρ :=
  { query with failure := some operation }

/-- The failure of an operation, if the query was told to fail at it. -/
def fault? (query : Query ρ) (operation : Operation) : Option QueryError :=
  if query.failure = some operation then some (.injected operation) else none

def start (query : Query ρ) : Nat := (query.skip.or query.offset).getD 0

def size? (query : Query ρ) : Option Nat := query.take.or query.limit

variable [Row ρ]

def matching (query : Query ρ) : List ρ :=
  query.rows.filter fun row => query.filters.all fun filter => filter.keeps row

/-- The rows within the bounds of those that pass all filters, in order. -/
def page (query : Query ρ) : List ρ :=
  let rows := (SortKey.sort query.keys query.matching).drop query.start
  match query.size? with
  | some size => rows.take size
  | none => rows

/-- Counts the rows that pass all filters. A query without counting has no count, and no failure either. -/
def count (query : Query ρ) : Except QueryError (Option Nat) :=
  if query.countable then
    match query.fault? .count with
    | some error => .error error
    | none => .ok (some query.matching.length)
  else .ok none

def fetch (query : Query ρ) : Logged (Except QueryError (List ρ)) :=
  match query.fault? .execute with
  | some error => return .error error
  | none => do
    let rows := query.page
    Logged.report (.queryExecuted query.filters.length query.keys.length rows.length)
    return .ok rows

/-- Fetches and counts at once. Fetching is tried first, and counting only where rows are counted. -/
def fetchCounted (query : Query ρ) : Logged (Except QueryError (List ρ × Option Nat)) :=
  match query.fault? .execute with
  | some error => return .error error
  | none =>
    match if query.countable then query.fault? .count else none with
    | some error => return .error error
    | none => do
      let total := if query.countable then some query.matching.length else none
      let rows := query.page
      Logged.report (.queryExecutedWithCount rows.length total)
      return .ok (rows, total)

instance : Source (Query ρ) ρ QueryError where
  restrict := restrict
  orderBy := orderBy
  thenBy := thenBy
  setLimit := withLimit
  setOffset := withOffset
  setSkip := withSkip
  setTake := withTake
  count query := return (query.count, query)
  fetch query := do return (← query.fetch, query)
  fetchCounted query := do return (← query.fetchCounted, query)
  errorText := QueryError.message

end Query

end Table

end Paging
