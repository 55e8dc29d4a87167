import Paging.Proofs.Cursor.RoundTrip
import Paging.Proofs.Paginator.KeysetPage

/-!
What a page in keyset mode means, said without the steps that make it. Of the rows that pass the filters
of a query and lie strictly after the value of the cursor, in stable order, it shows the first ones. All
else that it tells follows from these rows, and whether the rows are counted makes no difference to
whether another page follows.
-/

namespace Paging

variable {ρ : Type} [Row ρ]

/-- The rows of a query that pass its filters and that a request reaches, as they are stored. -/
def Table.Query.reached (query : Table.Query ρ) (request : Request) : List ρ :=
  query.rows.filter fun row =>
    decide ((∀ filter ∈ query.filters, filter.keeps row = true) ∧ request.Reaches row)

theorem Table.Query.filter_matching (query : Table.Query ρ) (request : Request) :
    (query.matching.filter fun row => request.admits (Row.value? row request.sort.field)) =
      query.reached request := by
  rw [matching, reached, List.filter_filter]
  apply List.filter_congr
  intro row _
  rw [Bool.eq_iff_iff, Bool.and_eq_true, List.all_eq_true, decide_eq_true_eq, request.admits_iff_reaches]
  exact and_comm

theorem Request.isSome_boundary?_iff (request : Request) :
    request.boundary?.isSome = true ↔
      ∃ token ∈ request.cursor, ∃ cursor, (Cursor.decode token).value = some cursor := by
  simp only [boundary?, Cursor.value_decode, Option.mem_def]
  cases request.cursor with
  | none => simp
  | some token => simp [Option.isSome_iff_exists]

namespace Paginator

/--
The page of a query in keyset mode. The query may have any filters, count or not, and fail to count; only
fetching must not fail.
-/
theorem paginate_selects (paginator : Paginator) {query : Table.Query ρ} {request : Request}
    (hquery : query.Unbounded) (hfetches : query.failure ≠ some .execute)
    (hmode : request.offsetMode = false) :
    let limit := request.pageSizeUnder paginator.policy
    let field := request.sort.field
    let rows := query.reached request
    ∃ sorted, (∀ list, StablySorts request.compareRows rows list ↔ list = sorted) ∧
      ∃ page, (paginator.paginate query request).value.1 = .ok page ∧
        page.items = sorted.take limit ∧
        (page.hasNext = true ↔ limit < rows.length) ∧
        (page.hasPrevious = true ↔
          ∃ token ∈ request.cursor, ∃ cursor, (Cursor.decode token).value = some cursor) ∧
        (∀ total, page.totalCount = some total ↔
          request.countsUnder paginator.policy = true ∧ query.Counts ∧ total = rows.length) ∧
        (∀ token, page.nextCursor = some token ↔ page.hasNext = true ∧
          ∃ item ∈ page.items.getLast?, ∃ value ∈ Row.value? item field,
            token = Cursor.token ⟨field, value⟩) ∧
        (∀ token, page.previousCursor = some token ↔ page.hasPrevious = true ∧
          ∃ item ∈ page.items.head?, ∃ value ∈ Row.value? item field,
            token = Cursor.token ⟨field, value⟩) := by
  intro limit field rows
  have hfound : Keyset.found request query.matching = SortKey.sort request.keys rows := by
    rw [Keyset.found, query.filter_matching]
  have hlength : (SortKey.sort request.keys rows).length = rows.length := SortKey.length_sort _ _
  refine ⟨SortKey.sort request.keys rows, request.stablySorts_iff rows, _,
    paginator.paginate_keyset hquery hfetches hmode, ?_, ?_, request.isSome_boundary?_iff, ?_, ?_, ?_⟩
  · rw [hfound]
  · rw [hfound, hlength, decide_eq_true_iff]
  · intro total
    rw [hfound, hlength, Option.ite_none_right_eq_some, Option.some.injEq, and_assoc, @eq_comm _ total]
  · intro token
    rw [Option.ite_none_right_eq_some, Keyset.tokenOf?_eq_some_iff]
  · intro token
    rw [Option.ite_none_right_eq_some, Keyset.tokenOf?_eq_some_iff]

/-- The request for pages of one row each, by rank. -/
def rankRequest : Request := { sort := .asc "rank", limit := some 1 }

/-- A query of rows with a rank, one of which has none. It is filtered, and it fails to count. -/
def uncountedQuery : Table.Query TypedRow :=
  { rows := [⟨0, [("rank", .int 1)]⟩, ⟨1, [("rank", .int 5)]⟩, ⟨2, []⟩, ⟨3, [("rank", .int 7)]⟩]
    filters := [⟨"rank", .greater, .int 2⟩]
    failure := some .count }

theorem stablySorts_uncountedQuery :
    StablySorts rankRequest.compareRows (uncountedQuery.reached rankRequest)
      [⟨1, [("rank", .int 5)]⟩, ⟨3, [("rank", .int 7)]⟩] := by
  have hreached : uncountedQuery.reached rankRequest =
      [⟨1, [("rank", .int 5)]⟩, ⟨3, [("rank", .int 7)]⟩] := rfl
  rw [hreached, Request.stablySorts_iff, SortKey.sort_of_pairwise]
  decide +kernel

theorem paginate_uncountedQuery :
    ∃ page, ((default : Paginator).paginate uncountedQuery rankRequest).value.1 = .ok page ∧
      page.items = [⟨1, [("rank", .int 5)]⟩] ∧ page.hasNext = true ∧ page.totalCount = none ∧
      page.nextCursor = some (Cursor.token ⟨"rank", .int 5⟩) := by
  have hunbounded : uncountedQuery.Unbounded := ⟨rfl, rfl, rfl⟩
  have hmode : rankRequest.offsetMode = false := rfl
  obtain ⟨sorted, hsorted, page, hpage, hitems, hnext, _, htotal, hcursor, _⟩ :=
    paginate_selects (default : Paginator) hunbounded (by decide) hmode
  obtain rfl := (hsorted _).mp stablySorts_uncountedQuery
  have hmore : page.hasNext = true := hnext.mpr (by decide)
  have hshown : page.items = [⟨1, [("rank", .int 5)]⟩] := hitems
  refine ⟨page, hpage, hshown, hmore, ?_, ?_⟩
  · rw [Option.eq_none_iff_forall_ne_some]
    intro total htold
    obtain ⟨_, hcounts, _⟩ := (htotal total).mp htold
    exact absurd hcounts (by decide)
  · refine (hcursor _).mpr ⟨hmore, ⟨1, [("rank", .int 5)]⟩, ?_, .int 5, rfl, rfl⟩
    rw [hshown]
    rfl

end Paginator

end Paging
