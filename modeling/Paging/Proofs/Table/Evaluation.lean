import Paging.Proofs.Sort.Lexicographic
import Paging.Proofs.Table.Counting

/-!
What a query evaluates to, whatever was set before: of the rows that pass all filters, in their stable order
under the sort keys, those from its start on, as many as its size allows. Counting looks at the filters alone.
-/

namespace Paging.Table.Query

variable {ρ : Type} [Row ρ]

theorem matching_eq (query : Query ρ) :
    query.matching = query.rows.filter fun row => decide (∀ filter ∈ query.filters, filter.keeps row = true) := by
  apply List.filter_congr
  intro row _
  rw [Bool.eq_iff_iff, List.all_eq_true, decide_eq_true_iff]

/-- A query without a size takes all rows. -/
theorem page_eq (query : Query ρ) :
    query.page = ((SortKey.sort query.keys query.matching).drop query.start).take
      (query.size?.getD query.matching.length) := by
  unfold page
  cases query.size? with
  | some size => rfl
  | none =>
    symm
    apply List.take_of_length_le
    rw [List.length_drop, SortKey.length_sort]
    exact Nat.sub_le _ _

theorem value_count {query : Query ρ} (hcounts : query.Counts) :
    (Source.count query).value = (.ok (some query.matching.length), query) := by
  rw [value_source_count, count_of_counts hcounts]

/--
A query that does not fail at fetching fetches a slice of its sorted rows: those that pass all filters, in an
order that the first key that tells two of them apart decides and that keeps the others as they are stored. A
skip wins over an offset, and a take over a limit. What the query counts are the rows that pass all filters.
-/
theorem fetch_evaluates (query : Query ρ) (hfetches : query.failure ≠ some .execute) :
    let rows := query.rows.filter fun row => decide (∀ filter ∈ query.filters, filter.keeps row = true)
    let start := (query.skip.or query.offset).getD 0
    let size := (query.take.or query.limit).getD rows.length
    ∃ sorted : List ρ, (∀ list, StablySorts (SortKey.compareRows query.keys) rows list ↔ list = sorted) ∧
      (∀ a b : ρ, (SortKey.compareRows query.keys a b = .lt ↔ SortKey.Outranks a b query.keys) ∧
        (SortKey.compareRows query.keys a b = .gt ↔ SortKey.Outranks b a query.keys)) ∧
      let items := (sorted.drop start).take size
      (Source.fetch query).value = (.ok items, query) ∧
      items.length = min size (rows.length - start) ∧
      (query.Counts →
        (Source.count query).value = (.ok (some rows.length), query) ∧
        (Source.fetchCounted query).value = (.ok (items, some rows.length), query)) := by
  intro rows start size
  have hrows : query.matching = rows := query.matching_eq
  have hpage : query.page = ((SortKey.sort query.keys rows).drop start).take size := by
    rw [page_eq, hrows]
    rfl
  refine ⟨SortKey.sort query.keys rows, SortKey.stablySorts_iff query.keys rows,
    fun a b => ⟨SortKey.compareRows_eq_lt_iff _ a b, SortKey.compareRows_eq_gt_iff _ a b⟩, ?_, ?_, fun hcounts => ?_⟩
  · rw [value_fetch hfetches, hpage]
  · rw [List.length_take, List.length_drop, SortKey.length_sort]
  · constructor
    · rw [value_count hcounts, hrows]
    · rw [value_fetchCounted hfetches hcounts, hpage, hrows]

/-- A query under a descending and an ascending key. One of its rows has no name, and one passes no filter. -/
def namedQuery : Query TypedRow :=
  { rows := [⟨0, [("rank", .int 7), ("name", .text "a")]⟩, ⟨1, [("rank", .int 5), ("name", .text "b")]⟩,
      ⟨2, [("rank", .int 3)]⟩, ⟨3, [("rank", .int 5), ("name", .text "b")]⟩, ⟨4, [("name", .text "c")]⟩]
    filters := [⟨"rank", .greater, .int 2⟩]
    keys := [.desc "name", .asc "rank"]
    limit := some 2
    offset := some 0
    skip := some 1 }

theorem sort_namedQuery :
    SortKey.sort namedQuery.keys namedQuery.matching =
      [⟨2, [("rank", .int 3)]⟩, ⟨1, [("rank", .int 5), ("name", .text "b")]⟩,
        ⟨3, [("rank", .int 5), ("name", .text "b")]⟩, ⟨0, [("rank", .int 7), ("name", .text "a")]⟩] := by
  have hpairs : [⟨2, by decide⟩, ⟨1, by decide⟩, ⟨3, by decide⟩, ⟨0, by decide⟩].Pairwise
      (SortKey.Precedes namedQuery.keys namedQuery.matching) := by
    decide +kernel
  exact SortKey.sort_eq_map_of_pairwise (by decide +kernel) hpairs

/-- The row without a name comes first and is skipped. -/
theorem fetch_namedQuery :
    namedQuery.failure ≠ some .execute ∧
      (Source.fetch namedQuery).value = (.ok [⟨1, [("rank", .int 5), ("name", .text "b")]⟩,
        ⟨3, [("rank", .int 5), ("name", .text "b")]⟩], namedQuery) ∧
      (Source.count namedQuery).value = (.ok (some 4), namedQuery) := by
  have hfetches : namedQuery.failure ≠ some .execute := nofun
  obtain ⟨sorted, hsorted, _, hfetch, _, hcounted⟩ := fetch_evaluates namedQuery hfetches
  have hsort := (hsorted _).mp ((SortKey.stablySorts_iff _ _ _).mpr rfl)
  rw [← matching_eq, sort_namedQuery] at hsort
  subst hsort
  exact ⟨hfetches, hfetch, (hcounted ⟨rfl, nofun⟩).1⟩

end Paging.Table.Query
