import Paging.Diagnostics

/-!
Sources of rows. A source is a query in the making: it takes filters, sort keys and bounds, and then counts
or fetches its rows. Counting is optional. Every operation that reads rows may fail with the source's own
kind of error, and leaves a source behind, so that what a source remembers of its use can be looked at.
-/

namespace Paging

/-- Counts, then fetches. The first error wins. -/
def countThenFetch {σ ρ ε : Type} (count : σ → Logged (Except ε (Option Nat) × σ))
    (fetch : σ → Logged (Except ε (List ρ) × σ)) (source : σ) :
    Logged (Except ε (List ρ × Option Nat) × σ) := do
  match ← count source with
  | (.error error, source) => return (.error error, source)
  | (.ok total, source) =>
    match ← fetch source with
    | (.error error, source) => return (.error error, source)
    | (.ok rows, source) => return (.ok (rows, total), source)

/-- Sources of type `σ`, with rows of type `ρ` and errors of type `ε`. -/
class Source (σ : Type) (ρ ε : outParam Type) where
  /-- Keeps only rows that pass a further filter. -/
  restrict : σ → RangeFilter → σ
  /-- Sorts by one key, in place of all earlier ones. -/
  orderBy : σ → SortKey → σ
  /-- Sorts by a further key after the earlier ones. -/
  thenBy : σ → SortKey → σ
  /-- Bounds the number of result rows. -/
  setLimit : σ → Nat → σ
  /-- Drops result rows from the front. -/
  setOffset : σ → Nat → σ
  /-- Drops entities from the front; where an entity is a row, that is the offset. -/
  setSkip : σ → Nat → σ := setOffset
  /-- Bounds the number of entities; where an entity is a row, that is the limit. -/
  setTake : σ → Nat → σ := setLimit
  /-- The number of rows that pass the filters, whatever the bounds, or `none` if it cannot be told. -/
  count : σ → Logged (Except ε (Option Nat) × σ) := fun source => return (.ok none, source)
  /-- The rows in order, within the bounds. -/
  fetch : σ → Logged (Except ε (List ρ) × σ)
  /-- The rows together with their count. -/
  fetchCounted : σ → Logged (Except ε (List ρ × Option Nat) × σ) := countThenFetch count fetch
  /-- The text of an error. -/
  errorText : ε → String

/-- The number of rows if it is wanted and can be told; a failure to count is reported and forgotten. -/
def Source.countTolerantly {σ ρ ε : Type} [Source σ ρ ε] (source : σ) (wanted : Bool) :
    Logged (Option Nat × σ) :=
  if wanted then do
    match ← Source.count source with
    | (.ok total, source) => return (total, source)
    | (.error error, source) =>
      Logged.report (.countFailed (Source.errorText σ error))
      return (none, source)
  else return (none, source)

end Paging
