import Paging.Proofs.Paginator.PageSize
import Paging.Proofs.Paginator.Steps
import Paging.Proofs.Table.Counting

/-!
The numbered page of a query, as a value of the page number and the rows. It is cut from the order of the rows
by position, and a page follows it exactly if there are rows past its end.
-/

namespace Paging

theorem pageOffset_eq {page limit : Nat} (h : (page - 1) * limit < UInt64.size) :
    pageOffset page limit = (page - 1) * limit :=
  Nat.min_eq_left (Nat.le_sub_one_of_lt h)

theorem NumberedPage.of_eq {α : Type} (items : List α) (total page : Nat) {limit : Nat} (hlimit : 0 < limit) :
    NumberedPage.of items total page limit = ⟨items, total, page, limit, (total + limit - 1) / limit⟩ := by
  have hmax : max limit 1 = limit := Nat.max_eq_left hlimit
  simp only [of, hmax]

/-- A page has a successor exactly if the pages up to it do not hold all rows. -/
theorem lt_pages_iff (total page : Nat) {limit : Nat} (hlimit : 0 < limit) :
    page < (total + limit - 1) / limit ↔ page * limit < total :=
  calc page < (total + limit - 1) / limit
    _ ↔ (page + 1) * limit ≤ total + limit - 1 := Nat.le_div_iff_mul_le hlimit
    _ ↔ page * limit < total := by
      rw [Nat.add_mul]
      omega

variable {ρ : Type} [Row ρ]

namespace Table.Query

variable {query : Table.Query ρ}

theorem numberedPageWithin_of_failing (hfails : query.failure = some .execute) (number limit bound : Nat) :
    (numberedPageWithin query number limit bound).value.1 = .error (.injected .execute) := by
  have hfetched (offset size : Nat) :
      (Source.fetchCounted (Source.setTake (Source.setSkip query offset) size)).value =
        (.error (.injected .execute), Source.setTake (Source.setSkip query offset) size) :=
    @value_fetchCounted_of_failing ρ _ ((query.withSkip offset).withTake size) hfails
  rw [Paging.value_numberedPageWithin]
  simp only [hfetched]
  rfl

/-- The numbered page of a query that fetches its rows. What its count lacks is made up from the rows it shows. -/
theorem numberedPageWithin_of_fetching (hfetches : query.failure ≠ some .execute) (number limit bound : Nat) :
    (numberedPageWithin query number limit bound).value.1 =
      let page := max number 1
      let size := clampPageSize limit bound
      let offset := pageOffset page size
      let items := ((SortKey.sort query.keys query.matching).drop offset).take size
      query.count.map fun total => NumberedPage.of items (total.getD (offset + items.length)) page size := by
  have hfetched (offset size : Nat) :
      (Source.fetchCounted (Source.setTake (Source.setSkip query offset) size)).value =
        (query.count.map fun total => (((SortKey.sort query.keys query.matching).drop offset).take size, total),
          Source.setTake (Source.setSkip query offset) size) :=
    @value_fetchCounted_of_fetching ρ _ ((query.withSkip offset).withTake size) hfetches
  rw [Paging.value_numberedPageWithin]
  simp only [hfetched]
  cases query.count <;> rfl

/-- The numbered page of a query that counts its rows. -/
theorem value_numberedPageWithin (hfailure : query.failure ≠ some .execute) (hcounts : query.Counts)
    (number limit bound : Nat) :
    (numberedPageWithin query number limit bound).value.1 =
      let page := max number 1
      let size := clampPageSize limit bound
      let items := ((SortKey.sort query.keys query.matching).drop (pageOffset page size)).take size
      .ok (NumberedPage.of items query.matching.length page size) := by
  rw [numberedPageWithin_of_fetching hfailure, count_of_counts hcounts]
  rfl

end Table.Query

/-- The numbered page of a query that counts its rows, its size bounded by the policy of a paginator. -/
theorem Paginator.numberedPage_query (paginator : Paginator) {query : Table.Query ρ}
    (hfailure : query.failure ≠ some .execute) (hcounts : query.Counts) (number limit : UInt64) :
    (paginator.numberedPage query number limit).value.1 =
      let page := max number.toNat 1
      let size := clampPageSize limit.toNat paginator.policy.maxLimit.toNat
      let items := ((SortKey.sort query.keys query.matching).drop (pageOffset page size)).take size
      .ok (NumberedPage.of items query.matching.length page size) := by
  rw [numberedPage, Logging.value_deliver, Table.Query.value_numberedPageWithin hfailure hcounts]

/-- The numbered page of all rows of a table. -/
theorem Paginator.numberedPage_table (paginator : Paginator) (table : Table ρ) (keys : List SortKey)
    (number limit : UInt64) :
    (paginator.numberedPage { table.query with keys := keys } number limit).value.1 =
      let page := max number.toNat 1
      let size := clampPageSize limit.toNat paginator.policy.maxLimit.toNat
      let items := ((SortKey.sort keys table.rows).drop (pageOffset page size)).take size
      .ok (NumberedPage.of items table.rows.length page size) := by
  have hfailure : ({ table.query with keys := keys } : Table.Query ρ).failure ≠ some .execute := nofun
  have hmatching : ({ table.query with keys := keys } : Table.Query ρ).matching = table.rows :=
    Table.Query.matching_query table
  rw [paginator.numberedPage_query hfailure (Table.Query.counts_query table), hmatching]

end Paging
