import Paging.Source
import Paging.Request
import Paging.Page
import Paging.Cursor

/-!
Pages after a boundary value. The source is restricted to what comes strictly after the cursor's value and
asked for one row more than the page holds, which tells whether another page follows. A token that is no
cursor and a count that fails never fail the page.
-/

namespace Paging.Keyset

variable {σ ρ ε : Type} [Source σ ρ ε] [Row ρ]

/-- Restricts a source to what comes after a request's cursor, and tells whether it has one. -/
def seek (source : σ) (request : Request) : Logged (σ × Bool) :=
  match request.cursor with
  | none => return (source, false)
  | some token => do
    match ← Cursor.decode token with
    | none =>
      Logged.report .cursorIgnored
      return (source, false)
    | some cursor =>
      if cursor.field ≠ request.sort.field then
        Logged.report (.cursorOfOtherField cursor.field request.sort.field)
      let filter := RangeFilter.after request.sort cursor.value
      Logged.report (.boundaryApplied filter)
      return (Source.restrict source filter, true)

/-- The token of a boundary row. A row without a value is reported and has none. -/
def boundaryToken (field : String) : Option ρ → Logged (Option String)
  | none => return none
  | some row =>
    match Row.value? row field with
    | some value => return some (Cursor.token ⟨field, value⟩)
    | none => do
      Logged.report (.boundaryMissing field)
      return none

/-- The token of a boundary row where a page has a neighbour on that side. -/
def neighbourToken (field : String) (hasNeighbour : Bool) (row : Option ρ) :
    Logged (Option String) :=
  if hasNeighbour then boundaryToken field row else return none

/-- Makes a page of the rows fetched for it, which may be one too many. -/
def assemble (request : Request) (limit : Nat) (hasPrevious : Bool) (total : Option Nat)
    (fetched : List ρ) : Logged (Page ρ) := do
  let items := fetched.take limit
  let hasNext := decide (limit < fetched.length) || total.any fun total => decide (limit < total)
  let nextCursor ← neighbourToken request.sort.field hasNext items.getLast?
  let previousCursor ← neighbourToken request.sort.field hasPrevious items.head?
  Logged.report (.keysetPage limit fetched.length items.length hasNext hasPrevious total)
  return ⟨items, hasNext, hasPrevious, nextCursor, previousCursor, total⟩

def page (source : σ) (request : Request) (limit : Nat) (counts : Bool) :
    Logged (Except ε (Page ρ) × σ) := do
  let (source, hasPrevious) ← seek source request
  let (total, source) ← Source.countTolerantly source counts
  match ← Source.fetch (Source.setLimit source (limit + 1)) with
  | (.error error, source) => return (.error error, source)
  | (.ok fetched, source) =>
    let page ← assemble request limit hasPrevious total fetched
    return (.ok page, source)

end Paging.Keyset
