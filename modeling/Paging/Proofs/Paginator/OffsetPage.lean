import Paging.Proofs.Paginator.Steps
import Paging.Proofs.Table.Query
import Paging.Walk

/-!
The page of a query in offset mode, as a value of the request and the rows. It is cut from the order of
the rows by position, and only a count tells whether another page follows.
-/

namespace Paging

variable {ρ : Type} [Row ρ]

/-- What a page shows ends before the rows do exactly if what it has room for does. -/
theorem SortKey.add_length_slice_lt_iff (keys : List SortKey) (rows : List ρ) (offset limit : Nat) :
    offset + (((sort keys rows).drop offset).take limit).length < rows.length ↔
      offset + limit < rows.length := by
  rw [length_slice_sort]
  omega

namespace Table.Query

/-- The query for what a request does not skip, in its order, a page of it at most. -/
def cut (query : Query ρ) (request : Request) (limit : Nat) : Query ρ :=
  ({ query with keys := request.keys }.withSkip request.skipped).withTake limit

variable (query : Query ρ) (request : Request) (limit : Nat)

theorem setTake_setSkip :
    Source.setTake (Source.setSkip (Paginator.ordered query request) request.skipped) limit =
      query.cut request limit := by
  rw [Paginator.ordered_query]
  rfl

/-- Skip and take win over all other bounds that a query may have. -/
theorem page_cut :
    (query.cut request limit).page =
      ((SortKey.sort request.keys query.matching).drop request.skipped).take limit := rfl

theorem matching_cut : (query.cut request limit).matching = query.matching := rfl

omit [Row ρ] in
theorem failure_cut : (query.cut request limit).failure = query.failure := rfl

omit [Row ρ] in
theorem counts_cut : (query.cut request limit).Counts ↔ query.Counts := Iff.rfl

end Table.Query

namespace Paginator

/-- The page of a query in offset mode, which has no cursors. -/
theorem paginate_offset (paginator : Paginator) {query : Table.Query ρ} {request : Request}
    (hfailure : query.failure ≠ some .execute) (hmode : request.offsetMode = true) :
    (paginator.paginate query request).value.1 =
      let limit := request.pageSizeUnder paginator.policy
      let rows := query.matching
      let items := ((SortKey.sort request.keys rows).drop request.skipped).take limit
      let counted := request.countsUnder paginator.policy = true ∧ query.Counts
      .ok
        { items := items
          hasNext := decide (counted ∧ request.skipped + items.length < rows.length)
          hasPrevious := decide (0 < request.skipped)
          totalCount := if counted then some rows.length else none } := by
  generalize hlimit : request.pageSizeUnder paginator.policy = limit
  have hfetch : (Source.fetch (query.cut request limit)).value =
      (.ok (((SortKey.sort request.keys query.matching).drop request.skipped).take limit),
        query.cut request limit) := by
    rw [← query.page_cut]
    exact Table.Query.value_fetch (query.failure_cut request limit ▸ hfailure)
  rw [value_paginate]
  simp only [hmode, if_true, hlimit, value_offsetPage, query.setTake_setSkip,
    Table.Query.value_countTolerantly, query.counts_cut, query.matching_cut, hfetch, Except.map]
  by_cases hcounted : request.countsUnder paginator.policy = true ∧ query.Counts
  · simp [hcounted]
  · simp [hcounted]

/-- The page of a request in offset mode. -/
theorem pageOf_offset (paginator : Paginator) (table : Table ρ) {request : Request}
    (hmode : request.offsetMode = true) :
    paginator.pageOf table request =
      let limit := request.pageSizeUnder paginator.policy
      let items := ((SortKey.sort request.keys table.rows).drop request.skipped).take limit
      let counted := request.countsUnder paginator.policy
      .ok
        { items := items
          hasNext := counted && decide (request.skipped + items.length < table.rows.length)
          hasPrevious := decide (0 < request.skipped)
          totalCount := if counted then some table.rows.length else none } := by
  have hfailure : table.query.failure ≠ some .execute := nofun
  have hpage := paginator.paginate_offset hfailure hmode
  simp only [Table.Query.matching_query, Table.Query.counts_query, and_true, Bool.decide_and,
    Bool.decide_eq_true] at hpage
  exact hpage

end Paginator

end Paging
