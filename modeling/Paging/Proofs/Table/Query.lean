import Paging.Paginator.Basic
import Paging.Proofs.Sort.TieBreaker
import Paging.Table.Query

/-!
What the operations of a query return. Filters join by conjunction, whatever else is set; a query that
does not count has no count, and one that is told to fail at fetching returns no rows.
-/

namespace Paging

variable {ρ : Type} [Row ρ]

namespace Table.Query

/-- A query without bounds on its result, but for a limit, which a page sets anew. -/
structure Unbounded (query : Query ρ) : Prop where
  skip : query.skip = none
  take : query.take = none
  offset : query.offset = none

/-- A query counts its rows: it was neither told to do without counting nor to fail at it. -/
def Counts (query : Query ρ) : Prop := query.countable = true ∧ query.failure ≠ some .count

instance (query : Query ρ) : Decidable query.Counts := inferInstanceAs (Decidable (_ ∧ _))

omit [Row ρ] in
theorem unbounded_query (table : Table ρ) : table.query.Unbounded := ⟨rfl, rfl, rfl⟩

omit [Row ρ] in
theorem counts_query (table : Table ρ) : table.query.Counts := ⟨rfl, nofun⟩

theorem matching_query (table : Table ρ) : table.query.matching = table.rows :=
  List.filter_eq_self.mpr fun _ _ => rfl

theorem matching_restrict (query : Query ρ) (filter : RangeFilter) :
    (query.restrict filter).matching = query.matching.filter filter.keeps := by
  simp only [matching, restrict, List.filter_filter, List.all_append, List.all_cons, List.all_nil,
    Bool.and_true]
  exact List.filter_congr fun row _ => Bool.and_comm _ _

/-! As sources, queries stay as they are when they are counted or fetched from. -/

theorem value_source_count (query : Query ρ) : (Source.count query).value = (query.count, query) := rfl

theorem value_source_fetch (query : Query ρ) : (Source.fetch query).value = (query.fetch.value, query) := rfl

theorem value_source_fetchCounted (query : Query ρ) :
    (Source.fetchCounted query).value = (query.fetchCounted.value, query) := rfl

/-- Counting a query's rows where that is wanted. What cannot be counted has no count. -/
theorem value_countTolerantly (query : Query ρ) (wanted : Bool) :
    (Source.countTolerantly query wanted).value =
      (if wanted = true ∧ query.Counts then some query.matching.length else none, query) := by
  cases wanted with
  | false => rfl
  | true =>
    simp only [Source.countTolerantly, if_true, Logged.value_bind, value_source_count, count, fault?, Counts, true_and]
    by_cases hcountable : query.countable = true
    · by_cases hfailure : query.failure = some .count
      · simp [hcountable, hfailure]
      · simp [hcountable, hfailure]
    · simp [hcountable]

theorem value_fetch {query : Query ρ} (hfailure : query.failure ≠ some .execute) :
    (Source.fetch query).value = (.ok query.page, query) := by
  simp [value_source_fetch, fetch, fault?, hfailure]

theorem eq_page_of_fetch {query : Query ρ} {rows : List ρ} (h : query.fetch.value = .ok rows) :
    rows = query.page := by
  unfold fetch at h
  split at h
  · cases h
  · exact (Except.ok.inj h).symm

theorem eq_page_of_fetchCounted {query : Query ρ} {rows : List ρ} {total : Option Nat}
    (h : query.fetchCounted.value = .ok (rows, total)) : rows = query.page := by
  unfold fetchCounted at h
  split at h
  · cases h
  · split at h
    · cases h
    · exact (Prod.mk.inj (Except.ok.inj h)).1.symm

theorem length_page_le {query : Query ρ} {size : Nat} (h : query.size? = some size) :
    query.page.length ≤ size := by
  simp only [page, h]
  exact List.length_take_le _ _

theorem page_withLimit {query : Query ρ} (h : query.Unbounded) (size : Nat) :
    (query.withLimit size).page = (SortKey.sort query.keys query.matching).take size := by
  have hsize : (query.withLimit size).size? = some size := by
    simp [size?, withLimit, h.take]
  have hstart : (query.withLimit size).start = 0 := by
    simp [start, withLimit, h.skip, h.offset]
  simp only [page, hsize, hstart, List.drop_zero]
  rfl

end Table.Query

namespace Paginator

theorem ordered_query (query : Table.Query ρ) (request : Request) :
    ordered query request = { query with keys := request.keys } := by
  unfold ordered Request.keys
  split <;> rfl

end Paginator

end Paging
