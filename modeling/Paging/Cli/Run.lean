import Paging.Cli.Options
import Paging.Cli.FileTree
import Paging.Walk
import Paging.Json.Printer

/-!
What the command line does. A call is planned from its arguments: it either is finished at once or wants the
contents of one file, and the outcome is a function of those. Pages are written as indented JSON, and a
failure is told as the chain of its causes.
-/

namespace Paging.Cli

structure Outcome where
  exitCode : UInt32
  output : String := ""
  errors : String := ""
  deriving DecidableEq, Repr

inductive Failure
  | policy (error : PolicyError)
  | pageZero
  | read (path : String) (error : ReadError)
  | load (path : String) (error : TableError)
  | query (error : QueryError)
  deriving DecidableEq, Repr

def Failure.message : Failure → String
  | .policy error => "invalid pagination configuration: " ++ error.message
  | .pageZero => "page numbers start at 1"
  | .read path error => "failed to read " ++ path ++ ": " ++ error.message
  | .load path error => "failed to load rows from " ++ path ++ ": " ++ error.message
  | .query error => "failed to paginate rows: " ++ error.message

def Failure.outcome (failure : Failure) : Outcome :=
  { exitCode := 1, errors := "Error: " ++ failure.message ++ "\n" }

namespace Invocation

/-- The request of cursor and offset mode. Ties are always broken in ascending order. -/
def request (invocation : Invocation) : Request :=
  let request : Request :=
    { sort := invocation.sort, tieBreaker := .asc invocation.tieBreaker, limit := invocation.limit,
      cursor := invocation.cursor }
  let request := match invocation.offset with
    | some offset => request.withOffset offset
    | none => request
  if invocation.noCount then request.withCount false else request

def pageSize (invocation : Invocation) : UInt64 :=
  invocation.limit.getD invocation.policy.defaultLimit

/-- A query in the order that numbered pages have. -/
def numberedQuery (invocation : Invocation) (table : Table Json.Object) : Table.Query Json.Object :=
  let query := table.query.orderBy invocation.sort
  if invocation.tieBreaker = invocation.sort.field then query
  else query.thenBy (.asc invocation.tieBreaker)

def answer (invocation : Invocation) (paginator : Paginator) (table : Table Json.Object) :
    Except QueryError Json.Value :=
  match invocation.page with
  | some number =>
    (paginator.numberedPage (invocation.numberedQuery table) number invocation.pageSize).value.1.map
      fun page => (page.map Json.Value.object).toJson
  | none =>
    (paginator.pageOf table invocation.request).map fun page => (page.map Json.Value.object).toJson

/-- The paginator of an invocation that asks for a page there can be. -/
def paginator? (invocation : Invocation) : Except Failure Paginator :=
  match (Paginator.ofPolicy invocation.policy).value with
  | .error error => .error (.policy error)
  | .ok paginator => if invocation.page = some 0 then .error .pageZero else .ok paginator

def table? (invocation : Invocation) (contents : Except ReadError (List UInt8)) :
    Except Failure (Table Json.Object) :=
  match contents with
  | .error error => .error (.read invocation.input error)
  | .ok bytes =>
    match String.fromUTF8? bytes.toByteArray with
    | none => .error (.read invocation.input .notUnicode)
    | some text => (Table.ofText text).value.mapError (.load invocation.input)

def finish (invocation : Invocation) (paginator : Paginator)
    (contents : Except ReadError (List UInt8)) : Outcome :=
  match invocation.table? contents with
  | .error failure => failure.outcome
  | .ok table =>
    match invocation.answer paginator table with
    | .error error => (Failure.query error).outcome
    | .ok page => { exitCode := 0, output := page.pretty ++ "\n" }

end Invocation

def versionText : String := "pagekit 0.1.0\n"

def usageText : String := "Usage: pagekit [OPTIONS] --input <INPUT>\n"

def Stop.outcome : Stop → Outcome
  | .usage => { exitCode := 2, errors := usageText }
  | .version => { exitCode := 0, output := versionText }
  | .help => { exitCode := 0, output := usageText }

inductive Plan
  /-- The call is finished without reading anything. -/
  | finished (outcome : Outcome)
  /-- The contents of a file decide the outcome. -/
  | reads (path : String) (outcome : Except ReadError (List UInt8) → Outcome)

/-- Plans a call from its arguments and its environment. -/
def plan (env : String → Option String) (arguments : List String) : Plan :=
  match Invocation.ofArguments env arguments with
  | .error stop => .finished stop.outcome
  | .ok invocation =>
    match invocation.paginator? with
    | .error failure => .finished failure.outcome
    | .ok paginator => .reads invocation.input (invocation.finish paginator)

end Paging.Cli
