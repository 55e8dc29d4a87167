import Paging.Proofs.Table.Query

/-!
Queries that may fail. A query is told to fail at one operation at most, and one that does without counting does
not fail at it. So it makes no difference which operation is tried first, and rows and count fetched at once are
those that counting and then fetching give.
-/

namespace Paging

theorem value_countThenFetch {σ ρ ε : Type} (count : σ → Logged (Except ε (Option Nat) × σ))
    (fetch : σ → Logged (Except ε (List ρ) × σ)) (source : σ) :
    (countThenFetch count fetch source).value =
      match (count source).value with
      | (.error error, source) => (.error error, source)
      | (.ok total, source) => ((fetch source).value.1.map fun rows => (rows, total), (fetch source).value.2) := by
  simp only [countThenFetch, Logged.value_bind]
  rcases (count source).value with ⟨_ | total, source⟩
  · rfl
  · simp only [Logged.value_bind]
    rcases (fetch source).value with ⟨_ | rows, source⟩
    · rfl
    · rfl

namespace Table.Query

variable {ρ : Type} [Row ρ] {query : Query ρ}

theorem value_fetch_of_failing (hfails : query.failure = some .execute) :
    (Source.fetch query).value = (.error (.injected .execute), query) := by
  simp [value_source_fetch, fetch, fault?, hfails]

/-- Whether a query fails at fetching and the page that it takes are all that matters to what is fetched. -/
theorem fetch_eq_of_page_eq {here there : Query ρ} (hfailure : here.failure = there.failure)
    (hpage : here.page = there.page) : (Source.fetch here).value.1 = (Source.fetch there).value.1 := by
  by_cases hfails : here.failure = some .execute
  · rw [value_fetch_of_failing hfails, value_fetch_of_failing (hfailure ▸ hfails)]
  · rw [value_fetch hfails, value_fetch (hfailure ▸ hfails), hpage]

theorem value_fetchCounted_of_failing (hfails : query.failure = some .execute) :
    (Source.fetchCounted query).value = (.error (.injected .execute), query) := by
  simp [value_source_fetchCounted, fetchCounted, fault?, hfails]

/-- A query that does not fail at fetching has its rows with the count, or fails as its count does. -/
theorem value_fetchCounted_of_fetching (hfetches : query.failure ≠ some .execute) :
    (Source.fetchCounted query).value = (query.count.map fun total => (query.page, total), query) := by
  simp only [value_source_fetchCounted, fetchCounted, count, fault?, hfetches, if_false]
  cases query.countable with
  | false => rfl
  | true => by_cases hfailure : query.failure = some .count <;> simp [hfailure, Except.map]

theorem count_of_counts (hcounts : query.Counts) : query.count = .ok (some query.matching.length) := by
  rw [count, if_pos hcounts.1, fault?, if_neg hcounts.2]

theorem count_of_uncounted (huncounted : query.countable = false) : query.count = .ok none := by
  simp [count, huncounted]

theorem value_fetchCounted (hfetches : query.failure ≠ some .execute) (hcounts : query.Counts) :
    (Source.fetchCounted query).value = (.ok (query.page, some query.matching.length), query) := by
  rw [value_fetchCounted_of_fetching hfetches, count_of_counts hcounts]
  rfl

theorem count_eq_error_iff {error : QueryError} :
    query.count = .error error ↔
      query.countable = true ∧ query.failure = some .count ∧ error = .injected .count := by
  cases hcountable : query.countable with
  | false => simp [count, hcountable]
  | true =>
    by_cases hfailure : query.failure = some .count
    · simp [count, fault?, hcountable, hfailure, eq_comm]
    · simp [count, fault?, hcountable, hfailure]

theorem fetch_eq_error_iff {error : QueryError} :
    (Source.fetch query).value.1 = .error error ↔
      query.failure = some .execute ∧ error = .injected .execute := by
  by_cases hfails : query.failure = some .execute
  · simp [value_fetch_of_failing hfails, hfails, eq_comm]
  · simp [value_fetch hfails, hfails]

/--
Fetching rows together with their count is the same as counting and then fetching: the same rows and total or
the same error, in whatever state a query is. The failures cannot meet, since a query has one of them at most.
-/
theorem fetchCounted_eq_countThenFetch (query : Query ρ) :
    (Source.fetchCounted query).value = (countThenFetch Source.count Source.fetch query).value := by
  rw [value_countThenFetch, value_source_count]
  by_cases hfails : query.failure = some .execute
  · rw [value_fetchCounted_of_failing hfails]
    cases hcounted : query.count with
    | error error =>
      -- the count, tried first, cannot fail too
      obtain ⟨_, hfailure, _⟩ := count_eq_error_iff.mp hcounted
      rw [hfails] at hfailure
      cases hfailure
    | ok total =>
      dsimp only
      rw [value_fetch_of_failing hfails]
      rfl
  · rw [value_fetchCounted_of_fetching hfails]
    cases query.count with
    | error error => rfl
    | ok total =>
      dsimp only
      rw [value_fetch hfails]
      rfl

end Table.Query

end Paging
