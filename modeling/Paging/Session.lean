import Paging.Walk

/-!
Sessions: a caller that pages through a table while its rows change. A session remembers the cursors of the
last page it took; walks and numbered pages leave them alone. Each step sees the rows as they are then.
-/

namespace Paging

structure Session where
  paginator : Paginator
  request : Request
  rows : List Json.Value
  nextCursor : Option String := none
  previousCursor : Option String := none

inductive SessionError
  | table (error : TableError)
  | query (error : QueryError)
  deriving DecidableEq, Repr

namespace Session

inductive Origin
  | start
  | next
  | previous
  | token (token : String)

inductive Step
  | page (origin : Origin) (limit : Option UInt64)
  | walk (count : Nat)
  | numbered (page limit : UInt64)
  | sort (key : SortKey)
  | insert (row : Json.Value)
  | remove (index : Nat)
  | set (index : Nat) (field : String) (value : Json.Value)

inductive Reply
  | page (page : Page Json.Object)
  | pages (pages : List (Page Json.Object))
  | numbered (page : NumberedPage Json.Object)
  | sorted (key : SortKey)
  | rows (count : Nat)

/-- The token of a position, if the session has one for it. -/
def tokenOf (session : Session) : Origin → Option String
  | .start => none
  | .next => session.nextCursor
  | .previous => session.previousCursor
  | .token token => some token

/-- A JSON object with a field set. Other values have no fields. -/
def setField (field : String) (value : Json.Value) : Json.Value → Json.Value
  | .object members => .object (Json.Object.insert field value members)
  | other => other

def table (session : Session) : Except SessionError (Table Json.Object) :=
  (Table.ofJson (.array session.rows)).value.mapError .table

/-- A session with other rows, which answers with their number. -/
def withRows (session : Session) (rows : List Json.Value) : Session × Reply :=
  ({ session with rows := rows }, .rows rows.length)

def step (session : Session) (step : Step) : Except SessionError (Session × Reply) := do
  let table ← session.table
  match step with
  | .page origin limit =>
    let request := { session.request with
      cursor := session.tokenOf origin
      limit := limit.or session.request.limit }
    let page ← (session.paginator.pageOf table request).mapError .query
    return ({ session with nextCursor := page.nextCursor, previousCursor := page.previousCursor },
      .page page)
  | .walk count =>
    let pages ← (session.paginator.walk table session.request count).mapError .query
    return (session, .pages pages)
  | .numbered page limit =>
    let result ← (session.paginator.numberedPageOf table session.request page limit).mapError .query
    return (session, .numbered result)
  | .sort key => return ({ session with request := { session.request with sort := key } }, .sorted key)
  | .insert row => return session.withRows (session.rows ++ [row])
  | .remove index => return session.withRows (session.rows.eraseIdx index)
  | .set index field value => return session.withRows (session.rows.modify index (setField field value))

/-- The answers to a list of steps, or the first error. -/
def run (session : Session) : List Step → Except SessionError (List Reply)
  | [] => .ok []
  | next :: steps => do
    let (session, reply) ← session.step next
    let replies ← session.run steps
    return reply :: replies

end Session

end Paging
