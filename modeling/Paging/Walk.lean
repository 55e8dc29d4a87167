import Paging.Paginator.Basic
import Paging.Table.Query

/-!
Walks along the pages of a table. A walk takes the page of a request and goes on with the cursor that each
page names as the next, until there is none or enough pages are taken.
-/

namespace Paging

variable {ρ : Type} [Row ρ]

/-- One page of all rows of a table. -/
def Paginator.pageOf (paginator : Paginator) (table : Table ρ) (request : Request) :
    Except QueryError (Page ρ) :=
  (paginator.paginate table.query request).value.1

/-- The pages of a walk, `count` at most. -/
def Paginator.walk (paginator : Paginator) (table : Table ρ) (request : Request) :
    Nat → Except QueryError (List (Page ρ))
  | 0 => .ok []
  | count + 1 => do
    let page ← paginator.pageOf table request
    match page.nextCursor with
    | none => return [page]
    | some token =>
      let later ← paginator.walk table (request.withCursor token) count
      return page :: later

/-- The page of a number of all rows of a table, in the order of a request. -/
def Paginator.numberedPageOf (paginator : Paginator) (table : Table ρ) (request : Request)
    (page limit : UInt64) : Except QueryError (NumberedPage ρ) :=
  let query := (table.query.orderBy request.sort).thenBy request.tieBreaker
  (paginator.numberedPage query page limit).value.1

end Paging
