import Paging.Source
import Paging.Request
import Paging.Page

/-!
Pages by position: those of offset mode, and numbered pages with totals. Rows are skipped by number, so rows
that come and go between two requests shift later pages.
-/

namespace Paging

variable {σ ρ ε : Type} [Source σ ρ ε]

/--
The page after a number of rows. Whether another one follows is known only from a count.

The offset and the number of rows are added without a bound. A table has no rows at an offset past its end, so for
its queries a word holds the sum (`Proofs/Paginator/Words`). A source that pays no heed to its skip, as a recorder,
may return rows at an offset near `2 ^ 64`, and there the sum in words is not this one.
-/
def offsetPage (source : σ) (offset limit : Nat) (counts : Bool) :
    Logged (Except ε (Page ρ) × σ) := do
  let source := Source.setTake (Source.setSkip source offset) limit
  let (total, source) ← Source.countTolerantly source counts
  match ← Source.fetch source with
  | (.error error, source) => return (.error error, source)
  | (.ok items, source) =>
    let hasNext := total.any fun total => decide (offset + items.length < total)
    Logged.report (.offsetPage offset limit items.length hasNext total)
    return (.ok
      { items := items, hasNext := hasNext, hasPrevious := decide (0 < offset), totalCount := total },
      source)

/-- The product of two numbers, or the largest word where it is more than a word holds. -/
def saturatingMul (a b : Nat) : Nat := min (a * b) (UInt64.size - 1)

def pageOffset (page limit : Nat) : Nat := saturatingMul (page - 1) limit

/--
The total of a source that cannot count: the rows before the page and those on it, as far as they are known. They
are added without a bound, as in `offsetPage`; only of a source that pays no heed to its skip may the sum be more
than a word holds.
-/
def totalOrKnown (total : Option Nat) (offset returned : Nat) : Logged Nat :=
  match total with
  | some total => return total
  | none => do
    Logged.report (.totalUnknown (offset + returned))
    return offset + returned

/-- The page of a number, with totals. Page zero is page one, and the size is kept within `bound`. -/
def numberedPageWithin (source : σ) (page limit bound : Nat) :
    Logged (Except ε (NumberedPage ρ) × σ) := do
  let page := max page 1
  let limit := clampPageSize limit bound
  let offset := pageOffset page limit
  match ← Source.fetchCounted (Source.setTake (Source.setSkip source offset) limit) with
  | (.error error, source) => return (.error error, source)
  | (.ok (items, total), source) =>
    let total ← totalOrKnown total offset items.length
    let result := NumberedPage.of items total page limit
    Logged.report
      (.numberedPage result.page result.limit offset result.total result.totalPages)
    return (.ok result, source)

/-- The page of a number, with totals and no bound on its size but `maxPageSize`. -/
def numberedPage (source : σ) (page limit : UInt64) : Logged (Except ε (NumberedPage ρ) × σ) :=
  numberedPageWithin source page.toNat limit.toNat maxPageSize

end Paging
