import Paging.Paginator.Keyset
import Paging.Paginator.Positional

/-!
Paginators: a valid policy, and where the diagnostics of its runs go. A run orders the source by the sort key
and the tie breaker and then takes a page in the mode of the request.
-/

namespace Paging

inductive Logging
  /-- To the listener of whoever calls. -/
  | ambient
  /-- To a listener of the paginator's own. -/
  | own
  /-- Nowhere. -/
  | silenced
  deriving DecidableEq, Repr

/-- Sends the diagnostics of an action where they are to go. -/
def Logging.deliver {α : Type} (logging : Logging) (action : Logged α) : Logged α :=
  match logging with
  | .ambient => action
  | .own => ⟨action.value, action.reports.map fun report => { report with listener := .own }⟩
  | .silenced => ⟨action.value, []⟩

structure Paginator where
  policy : Policy
  valid : policy.Valid
  logging : Logging := .ambient

namespace Paginator

def ofPolicy (policy : Policy) : Logged (Except PolicyError Paginator) :=
  match h : policy.fault? with
  | some error => return .error error
  | none => do
    let _ ← policy.validate
    return .ok { policy := policy, valid := (Policy.fault?_eq_none_iff policy).mp h }

instance : Inhabited Paginator := ⟨{ policy := {}, valid := Policy.valid_default }⟩

/-- Sends diagnostics to a listener of the paginator's own. -/
def withListener (paginator : Paginator) : Paginator := { paginator with logging := .own }

def withoutLogging (paginator : Paginator) : Paginator := { paginator with logging := .silenced }

variable {σ ρ ε : Type} [Source σ ρ ε] [Row ρ]

/-- Orders a source by the sort key of a request, and by its tie breaker unless that is the same field. -/
def ordered (source : σ) (request : Request) : σ :=
  let source := Source.orderBy source request.sort
  if request.tieBreaker.field = request.sort.field then source
  else Source.thenBy source request.tieBreaker

def run (policy : Policy) (source : σ) (request : Request) : Logged (Except ε (Page ρ) × σ) := do
  Logged.report (.run request.sort request.tieBreaker request.hasCursor)
  let limit := request.pageSizeUnder policy
  let counts := request.countsUnder policy
  let source := ordered source request
  if request.offsetMode then offsetPage source request.skipped limit counts
  else Keyset.page source request limit counts

/-- One page of a source as a request describes it. -/
def paginate (paginator : Paginator) (source : σ) (request : Request) :
    Logged (Except ε (Page ρ) × σ) :=
  paginator.logging.deliver (run paginator.policy source request)

/-- The page of a number, its size bounded by the paginator's policy. -/
def numberedPage (paginator : Paginator) (source : σ) (page limit : UInt64) :
    Logged (Except ε (NumberedPage ρ) × σ) :=
  paginator.logging.deliver
    (numberedPageWithin source page.toNat limit.toNat paginator.policy.maxLimit.toNat)

end Paginator

end Paging
