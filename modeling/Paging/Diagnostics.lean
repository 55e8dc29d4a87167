import Paging.Filter

/-!
Diagnostics, which an operation leaves beside its result in the order of their emission. Each diagnostic is
a constructor with the data that it reports; its level, its target, its message and its fields as texts are
functions of that.
-/

namespace Paging

inductive Level
  | trace
  | debug
  | info
  | warn
  | error
  deriving DecidableEq, Repr

def Level.name : Level → String
  | .trace => "TRACE"
  | .debug => "DEBUG"
  | .info => "INFO"
  | .warn => "WARN"
  | .error => "ERROR"

inductive Target
  | paginator
  | cursor
  | config
  | table
  deriving DecidableEq, Repr

def Target.name : Target → String
  | .paginator => "pagekit_core::paginator"
  | .cursor => "pagekit_core::cursor"
  | .config => "pagekit_core::config"
  | .table => "pagekit_memory::source"

inductive Diagnostic
  /-- A run of the paginator starts. -/
  | run (sort tieBreaker : SortKey) (hasCursor : Bool)
  /-- A token of this many bytes is none that was issued. -/
  | tokenRejected (length : Nat)
  | cursorOfOtherField (cursorField sortField : String)
  | boundaryApplied (filter : RangeFilter)
  | cursorIgnored
  | countFailed (error : String)
  | boundaryMissing (field : String)
  | keysetPage (limit fetched returned : Nat) (hasNext hasPrevious : Bool) (total : Option Nat)
  | offsetPage (offset limit returned : Nat) (hasNext : Bool) (total : Option Nat)
  | totalUnknown (known : Nat)
  | numberedPage (page limit offset total totalPages : Nat)
  | policyAccepted (defaultLimit maxLimit : Nat) (includeCount : Bool)
  | rowsLoaded (rows : Nat)
  | queryExecuted (filters orders returned : Nat)
  | queryExecutedWithCount (returned : Nat) (total : Option Nat)
  deriving DecidableEq

namespace Diagnostic

def level : Diagnostic → Level
  | .run .. => .debug
  | .tokenRejected _ => .trace
  | .cursorOfOtherField .. => .warn
  | .boundaryApplied _ => .trace
  | .cursorIgnored => .debug
  | .countFailed _ => .warn
  | .boundaryMissing _ => .warn
  | .keysetPage .. => .debug
  | .offsetPage .. => .debug
  | .totalUnknown _ => .warn
  | .numberedPage .. => .debug
  | .policyAccepted .. => .debug
  | .rowsLoaded _ => .debug
  | .queryExecuted .. => .trace
  | .queryExecutedWithCount .. => .trace

def target : Diagnostic → Target
  | .tokenRejected _ => .cursor
  | .policyAccepted .. => .config
  | .rowsLoaded _ => .table
  | .queryExecuted .. => .table
  | .queryExecutedWithCount .. => .table
  | _ => .paginator

def message : Diagnostic → String
  | .run .. => "run"
  | .tokenRejected _ => "rejected malformed cursor token"
  | .cursorOfOtherField .. => "cursor was issued for a different sort field"
  | .boundaryApplied _ => "applying cursor boundary"
  | .cursorIgnored => "ignoring malformed cursor, starting from the first page"
  | .countFailed _ => "count query failed, continuing without a total"
  | .boundaryMissing _ => "boundary row has no value for the sort field, omitting cursor"
  | .keysetPage .. => "assembled keyset page"
  | .offsetPage .. => "assembled offset page"
  | .totalUnknown _ => "source cannot count, reporting known rows as the total"
  | .numberedPage .. => "assembled numbered page"
  | .policyAccepted .. => "validated paginator configuration"
  | .rowsLoaded _ => "loaded rows from json"
  | .queryExecuted .. => "executed in-memory query"
  | .queryExecutedWithCount .. => "executed in-memory query with count"

/-- Whether a diagnostic opens a span instead of reporting an event. -/
def isSpan : Diagnostic → Bool
  | .run .. => true
  | _ => false

def boolText (value : Bool) : String := if value then "true" else "false"

/-- An optional total, told apart from its absence. -/
def totalText : Option Nat → String
  | some total => "Some(" ++ total.repr ++ ")"
  | none => "None"

def fields : Diagnostic → List (String × String)
  | .run sort tieBreaker hasCursor =>
    [("sort", sort.text), ("tie_breaker", tieBreaker.text), ("has_cursor", boolText hasCursor)]
  | .tokenRejected length => [("token_len", length.repr)]
  | .cursorOfOtherField cursorField sortField =>
    [("cursor_field", cursorField), ("sort_field", sortField)]
  | .boundaryApplied filter => [("filter", filter.text)]
  | .cursorIgnored => []
  | .countFailed error => [("error", error)]
  | .boundaryMissing field => [("field", field)]
  | .keysetPage limit fetched returned hasNext hasPrevious total =>
    [("limit", limit.repr), ("fetched", fetched.repr), ("returned", returned.repr),
      ("has_next_page", boolText hasNext), ("has_previous_page", boolText hasPrevious),
      ("total", totalText total)]
  | .offsetPage offset limit returned hasNext total =>
    [("offset", offset.repr), ("limit", limit.repr), ("returned", returned.repr),
      ("has_next_page", boolText hasNext), ("total", totalText total)]
  | .totalUnknown known => [("known", known.repr)]
  | .numberedPage page limit offset total totalPages =>
    [("page", page.repr), ("limit", limit.repr), ("offset", offset.repr), ("total", total.repr),
      ("total_pages", totalPages.repr)]
  | .policyAccepted defaultLimit maxLimit includeCount =>
    [("default_limit", defaultLimit.repr), ("max_limit", maxLimit.repr),
      ("include_count", boolText includeCount)]
  | .rowsLoaded rows => [("rows", rows.repr)]
  | .queryExecuted filters orders returned =>
    [("filters", filters.repr), ("orders", orders.repr), ("returned", returned.repr)]
  | .queryExecutedWithCount returned total =>
    [("returned", returned.repr), ("total", totalText total)]

end Diagnostic

/-- Where diagnostics go: to the listener of the caller, or to one of the paginator's own. -/
inductive Listener
  | ambient
  | own
  deriving DecidableEq, Repr

/-- A diagnostic on its way to a listener. -/
structure Report where
  listener : Listener
  diagnostic : Diagnostic
  deriving DecidableEq

/-- A result with the diagnostics reported on the way to it, the first one first. -/
structure Logged (α : Type) where
  value : α
  reports : List Report

namespace Logged

instance : Monad Logged where
  pure value := ⟨value, []⟩
  bind action next :=
    let result := next action.value
    ⟨result.value, action.reports ++ result.reports⟩

@[simp] theorem value_pure {α : Type} (value : α) : (pure value : Logged α).value = value := rfl

@[simp] theorem reports_pure {α : Type} (value : α) : (pure value : Logged α).reports = [] := rfl

@[simp] theorem value_bind {α β : Type} (action : Logged α) (next : α → Logged β) :
    (action >>= next).value = (next action.value).value := rfl

@[simp] theorem reports_bind {α β : Type} (action : Logged α) (next : α → Logged β) :
    (action >>= next).reports = action.reports ++ (next action.value).reports := rfl

/-- Reports a diagnostic to the caller's listener. -/
def report (diagnostic : Diagnostic) : Logged Unit := ⟨(), [⟨.ambient, diagnostic⟩]⟩

def heardBy {α : Type} (listener : Listener) (logged : Logged α) : List Diagnostic :=
  (logged.reports.filter fun report => report.listener == listener).map (·.diagnostic)

end Logged

end Paging
