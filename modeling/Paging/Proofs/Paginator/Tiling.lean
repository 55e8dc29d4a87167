import Paging.Proofs.Paginator.NumberedPage
import Paging.Proofs.Paginator.OffsetPage

/-!
Pages by position cover the rows. The pages of offset mode at the multiples of the page size, up to the first
one that tells of none after it, show all rows in order, and so do the numbered pages up to the last one. Both
are slices of the sorted rows, also where an offset is cut off at the end of a word.
-/

namespace Paging

/-! ### Slices of a list -/

section

variable {α : Type} (list : List α)

/-- The first slices of a list, one after the other, are what it starts with. -/
theorem flatMap_slices (size count : Nat) :
    (List.range count).flatMap (fun index => (list.drop (index * size)).take size) = list.take (count * size) := by
  induction count with
  | zero => rw [Nat.zero_mul, List.take_zero, List.range_zero, List.flatMap_nil]
  | succ count ih =>
    rw [List.range_succ, List.flatMap_append, ih, List.flatMap_singleton, Nat.succ_mul, List.take_add]

theorem slice_eq_nil_iff (start : Nat) {size : Nat} (hsize : 0 < size) :
    (list.drop start).take size = [] ↔ list.length ≤ start := by
  rw [List.take_eq_nil_iff, List.drop_eq_nil_iff]
  omega

omit list in
theorem getElem?_map_range_eq_some_iff {f : Nat → α} {count index : Nat} {a : α} :
    ((List.range count).map f)[index]? = some a ↔ index < count ∧ f index = a := by
  rw [List.getElem?_map, Option.map_eq_some_iff]
  constructor
  · rintro ⟨_, hindex, hvalue⟩
    obtain ⟨hlt, rfl⟩ := List.getElem?_eq_some_iff.mp hindex
    rw [List.length_range] at hlt
    rw [List.getElem_range] at hvalue
    exact ⟨hlt, hvalue⟩
  · rintro ⟨hlt, hvalue⟩
    exact ⟨index, List.getElem?_range hlt, hvalue⟩

/-- As many slices as a list fills have room for all of it. -/
theorem take_pages_mul {size count : Nat} (hsize : 0 < size) (hcount : (list.length + size - 1) / size ≤ count) :
    list.take (count * size) = list := by
  apply List.take_of_length_le
  apply Nat.le_of_not_lt
  rw [← lt_pages_iff _ _ hsize]
  exact Nat.not_lt_of_le hcount

end

/-! ### Pages of some rows -/

section

variable {ρ : Type} (rows : List ρ) (limit : Nat)

/-- The page after a number of rows, where all rows are counted. -/
def Page.ofRows (offset : Nat) : Page ρ :=
  { items := (rows.drop offset).take limit
    hasNext := decide (offset + limit < rows.length)
    hasPrevious := decide (0 < offset)
    totalCount := some rows.length }

/-- The pages at the multiples of the page size, as many as the rows fill, and one if there are no rows. -/
def Page.tiling : List (Page ρ) :=
  (List.range (max 1 ((rows.length + limit - 1) / limit))).map fun index => Page.ofRows rows limit (index * limit)

/-- The page of a number, the first one being page one. -/
def NumberedPage.ofRows (number : Nat) : NumberedPage ρ :=
  ⟨(rows.drop ((number - 1) * limit)).take limit, rows.length, number, limit, (rows.length + limit - 1) / limit⟩

/-- The pages of all numbers up to the last one that has rows. -/
def NumberedPage.tiling : List (NumberedPage ρ) :=
  (List.range ((rows.length + limit - 1) / limit)).map fun index => NumberedPage.ofRows rows limit (index + 1)

variable {rows limit} (hlimit : 0 < limit)
include hlimit

omit hlimit in
theorem Page.tiling_ne_nil : tiling rows limit ≠ [] := by
  apply List.ne_nil_of_length_pos
  rw [tiling, List.length_map, List.length_range]
  exact Nat.lt_of_lt_of_le Nat.one_pos (Nat.le_max_left _ _)

theorem Page.flatMap_tiling : (tiling rows limit).flatMap (·.items) = rows := by
  rw [tiling, List.flatMap_map]
  exact (flatMap_slices rows limit _).trans (take_pages_mul rows hlimit (Nat.le_max_right 1 _))

/-- A page of the tiling is at its multiple of the page size, and tells of another one exactly if it is not the last. -/
theorem Page.of_getElem?_tiling {index : Nat} {page : Page ρ} (h : (tiling rows limit)[index]? = some page) :
    page = ofRows rows limit (index * limit) ∧ index * limit ≤ rows.length ∧
      (page.hasNext = true ↔ index + 1 < (tiling rows limit).length) := by
  obtain ⟨hlt, rfl⟩ := getElem?_map_range_eq_some_iff.mp h
  have hfilled := lt_pages_iff rows.length index hlimit
  have hnext := lt_pages_iff rows.length (index + 1) hlimit
  refine ⟨rfl, ?_, ?_⟩
  · cases index with
    | zero => rw [Nat.zero_mul]; exact Nat.zero_le _
    | succ index => omega
  · rw [tiling, List.length_map, List.length_range, ofRows, decide_eq_true_iff, ← Nat.succ_mul, Nat.succ_eq_add_one]
    omega

theorem NumberedPage.flatMap_tiling : (tiling rows limit).flatMap (·.items) = rows := by
  rw [tiling, List.flatMap_map]
  exact (flatMap_slices rows limit _).trans (take_pages_mul rows hlimit (Nat.le_refl _))

/-- Of a tiling of numbered pages, the page of an index is that of the number after it. -/
theorem NumberedPage.of_getElem?_tiling {index : Nat} {page : NumberedPage ρ}
    (h : (tiling rows limit)[index]? = some page) :
    page = ofRows rows limit (index + 1) ∧ index + 1 ≤ rows.length := by
  obtain ⟨hlt, rfl⟩ := getElem?_map_range_eq_some_iff.mp h
  have hfilled := (lt_pages_iff rows.length index hlimit).mp hlt
  exact ⟨rfl, Nat.lt_of_le_of_lt (Nat.le_mul_of_pos_right index hlimit) hfilled⟩

theorem NumberedPage.hasNext_ofRows (number : Nat) :
    (ofRows rows limit number).hasNext = true ↔ number * limit < rows.length := by
  rw [hasNext, decide_eq_true_iff]
  exact lt_pages_iff _ _ hlimit

/-- The pages after the last one are empty, and no others. -/
theorem NumberedPage.items_ofRows_eq_nil_iff {number : Nat} (hnumber : 1 ≤ number) :
    (ofRows rows limit number).items = [] ↔ (rows.length + limit - 1) / limit < number := by
  have hfilled := lt_pages_iff rows.length (number - 1) hlimit
  rw [ofRows, slice_eq_nil_iff _ _ hlimit, ← Nat.not_lt, ← hfilled]
  omega

end

variable {ρ : Type} [Row ρ]

/-! ### Pages in offset mode -/

theorem Request.skipped_lt (request : Request) : request.skipped < UInt64.size := by
  unfold skipped
  cases request.offset with
  | none => exact Nat.zero_lt_succ _
  | some offset => exact offset.toNat_lt_size

/-- Rows of which one has no rank and one is kept out by a filter, under bounds that a page does not mind. -/
def boundedQuery : Table.Query TypedRow :=
  { rows := [⟨0, [("id", .int 4), ("rank", .int 5)]⟩, ⟨1, [("id", .int 3)]⟩, ⟨2, [("id", .int 2), ("rank", .int 5)]⟩,
      ⟨3, [("id", .int 1), ("rank", .int 7)]⟩]
    filters := [⟨"id", .greater, .int 1⟩]
    keys := [.desc "rank"]
    limit := some 1
    offset := some 9 }

/-- The request for the page after two rows, by rank. -/
def laterRequest : Request := { sort := .asc "rank", limit := some 2, offset := some 2, offsetMode := true }

namespace Paginator

variable (paginator : Paginator) {query : Table.Query ρ}

/-- Where rows are counted, whether another page follows is a matter of the page size. -/
theorem paginate_ofRows {request : Request} (hfetches : query.failure ≠ some .execute)
    (hmode : request.offsetMode = true)
    (hcounted : request.countsUnder paginator.policy = true ∧ query.Counts) :
    (paginator.paginate query request).value.1 =
      .ok (Page.ofRows (SortKey.sort request.keys query.matching) (request.pageSizeUnder paginator.policy)
        request.skipped) := by
  rw [paginator.paginate_offset hfetches hmode]
  simp only [Page.ofRows, hcounted, true_and, and_self, if_true, SortKey.add_length_slice_lt_iff,
    SortKey.length_sort]

/--
A page in offset mode shows the rows from its offset on in the order of the engine, as many as the page size
allows, and where they are counted it tells whether any are left. So the pages at the multiples of the page size
show all rows in order, if one goes on from each page that tells of another one.
-/
theorem offset_pages_tile (request : Request) (hfetches : query.failure ≠ some .execute)
    (hwords : query.matching.length < UInt64.size) :
    let limit := request.pageSizeUnder paginator.policy
    let rows := query.matching
    let counted := request.countsUnder paginator.policy = true ∧ query.Counts
    ∃ sorted : List ρ, (∀ list, StablySorts request.compareRows rows list ↔ list = sorted) ∧
      (request.offsetMode = true → ∃ page, (paginator.paginate query request).value.1 = .ok page ∧
        page.items = (sorted.drop request.skipped).take limit ∧
        request.skipped + page.items.length < UInt64.size ∧
        page.nextCursor = none ∧ page.previousCursor = none ∧
        (page.hasPrevious = true ↔ 0 < request.skipped) ∧
        (counted → page.totalCount = some rows.length ∧
          (page.hasNext = true ↔ request.skipped + limit < rows.length))) ∧
      (counted → ∃ pages : List (Page ρ), pages ≠ [] ∧
        (∀ index page, pages[index]? = some page → ∃ offset : UInt64, offset.toNat = index * limit ∧
          (paginator.paginate query (request.withOffset offset)).value.1 = .ok page ∧
          (page.hasNext = true ↔ index + 1 < pages.length)) ∧
        pages.flatMap (·.items) = sorted) := by
  intro limit rows counted
  have hlength : (SortKey.sort request.keys rows).length = rows.length := SortKey.length_sort request.keys rows
  have hlimit : 0 < limit := request.pageSizeUnder_pos paginator.policy
  refine ⟨SortKey.sort request.keys rows, request.stablySorts_iff rows, fun hmode => ?_, fun hcounted => ?_⟩
  · refine ⟨_, paginator.paginate_offset hfetches hmode, rfl, ?_, rfl, rfl, decide_eq_true_iff, fun hcounted => ?_⟩
    · have hskipped := request.skipped_lt
      rw [List.length_take, List.length_drop, hlength]
      change rows.length < _ at hwords
      omega
    · refine ⟨if_pos hcounted, ?_⟩
      rw [decide_eq_true_iff, SortKey.add_length_slice_lt_iff]
      exact and_iff_right hcounted
  · refine ⟨Page.tiling (SortKey.sort request.keys rows) limit, Page.tiling_ne_nil, fun index page hpage => ?_,
      Page.flatMap_tiling hlimit⟩
    obtain ⟨rfl, hle, hnext⟩ := Page.of_getElem?_tiling hlimit hpage
    -- no page starts after the last row, so that there is a word for its offset
    have hword : index * limit < UInt64.size := Nat.lt_of_le_of_lt (hlength ▸ hle) hwords
    have hmode : (request.withOffset (UInt64.ofNatLT _ hword)).offsetMode = true := rfl
    exact ⟨UInt64.ofNatLT _ hword, UInt64.toNat_ofNatLT, paginator.paginate_ofRows hfetches hmode hcounted, hnext⟩

theorem sort_boundedQuery :
    SortKey.sort laterRequest.keys boundedQuery.matching =
      [⟨2, [("id", .int 2), ("rank", .int 5)]⟩, ⟨0, [("id", .int 4), ("rank", .int 5)]⟩, ⟨1, [("id", .int 3)]⟩] := by
  have hpairs : [⟨2, by decide⟩, ⟨0, by decide⟩, ⟨1, by decide⟩].Pairwise
      (SortKey.Precedes laterRequest.keys boundedQuery.matching) := by
    decide +kernel
  exact SortKey.sort_eq_map_of_pairwise (by decide +kernel) hpairs

/-- The row without a rank is alone on the last page. -/
theorem paginate_boundedQuery :
    boundedQuery.failure ≠ some .execute ∧ boundedQuery.matching.length < UInt64.size ∧
      (∃ page, ((default : Paginator).paginate boundedQuery laterRequest).value.1 = .ok page ∧
        page.items = [⟨1, [("id", .int 3)]⟩] ∧ page.hasNext = false ∧ page.totalCount = some 3) ∧
      ∃ pages : List (Page TypedRow), pages.flatMap (·.items) =
        [⟨2, [("id", .int 2), ("rank", .int 5)]⟩, ⟨0, [("id", .int 4), ("rank", .int 5)]⟩, ⟨1, [("id", .int 3)]⟩] := by
  have hfetches : boundedQuery.failure ≠ some .execute := nofun
  have hwords : boundedQuery.matching.length < UInt64.size := by decide
  have hcounted : laterRequest.countsUnder (default : Paginator).policy = true ∧ boundedQuery.Counts := by decide
  obtain ⟨sorted, hsorted, hpage, hpages⟩ := offset_pages_tile (default : Paginator) laterRequest hfetches hwords
  obtain rfl := (hsorted _).mp ((laterRequest.stablySorts_iff _ _).mpr sort_boundedQuery.symm)
  obtain ⟨page, hvalue, hitems, _, _, _, _, htold⟩ := hpage rfl
  obtain ⟨htotal, hnext⟩ := htold hcounted
  obtain ⟨pages, _, _, hall⟩ := hpages hcounted
  have hlast : ¬page.hasNext = true := fun h => absurd (hnext.mp h) (by decide)
  exact ⟨hfetches, hwords, ⟨page, hvalue, hitems, Bool.not_eq_true _ ▸ hlast, htotal⟩, pages, hall⟩

end Paginator

/-! ### Numbered pages -/

omit [Row ρ] in
/-- Where an offset is cut off, it is past the end of the rows all the same. -/
theorem drop_pageOffset {rows : List ρ} (hwords : rows.length < UInt64.size) (page limit : Nat) :
    rows.drop (pageOffset page limit) = rows.drop ((page - 1) * limit) := by
  by_cases hproduct : (page - 1) * limit < UInt64.size
  · rw [pageOffset_eq hproduct]
  · have hsaturated : pageOffset page limit = UInt64.size - 1 :=
      Nat.min_eq_right (Nat.le_trans (Nat.sub_le _ _) (Nat.le_of_not_lt hproduct))
    rw [hsaturated, List.drop_eq_nil_of_le (Nat.le_sub_one_of_lt hwords), List.drop_eq_nil_of_le]
    exact Nat.le_of_lt (Nat.lt_of_lt_of_le hwords (Nat.le_of_not_lt hproduct))

namespace Table.Query

variable {query : Query ρ}

theorem numberedPageWithin_ofRows (hfetches : query.failure ≠ some .execute) (hcounts : query.Counts)
    (hwords : query.matching.length < UInt64.size) (number limit bound : Nat) :
    (numberedPageWithin query number limit bound).value.1 =
      .ok (NumberedPage.ofRows (SortKey.sort query.keys query.matching) (clampPageSize limit bound)
        (max number 1)) := by
  have hlength := SortKey.length_sort query.keys query.matching
  rw [value_numberedPageWithin hfetches hcounts]
  simp only [NumberedPage.of_eq _ _ _ (clampPageSize_pos limit bound), drop_pageOffset (hlength ▸ hwords),
    NumberedPage.ofRows, hlength]

/--
A numbered page shows the rows between the pages before it and those after it, whatever number is asked for, and
tells how many rows and pages there are. So the pages up to the last number show all rows in order, each at
least one of them, and the pages after it show none.
-/
theorem numbered_pages_partition (hfetches : query.failure ≠ some .execute) (hcounts : query.Counts)
    (hwords : query.matching.length < UInt64.size) (limit bound : UInt64) :
    let rows := query.matching
    let size := min (max limit.toNat 1) (min (max bound.toNat 1) 100)
    let last := (rows.length + size - 1) / size
    let ask (number : UInt64) := (numberedPageWithin query number.toNat limit.toNat bound.toNat).value.1
    ∃ sorted : List ρ, (∀ list, StablySorts (SortKey.compareRows query.keys) rows list ↔ list = sorted) ∧
      (∀ number, ∃ page, ask number = .ok page ∧
        page.page = max number.toNat 1 ∧ page.limit = size ∧ page.total = rows.length ∧ page.totalPages = last ∧
        page.items = (sorted.drop ((page.page - 1) * size)).take size ∧
        (page.hasNext = true ↔ page.page * size < rows.length) ∧ (page.hasPrevious = true ↔ 1 < page.page) ∧
        (page.items = [] ↔ last < page.page)) ∧
      (∃ pages : List (NumberedPage ρ), pages.length = last ∧
        (∀ index page, pages[index]? = some page → ∃ number, number.toNat = index + 1 ∧ ask number = .ok page) ∧
        pages.flatMap (·.items) = sorted) ∧
      (bound = 100 → ∀ number, (numberedPage query number limit).value.1 = ask number) ∧
      ∀ paginator : Paginator, paginator.policy.maxLimit = bound →
        ∀ number, (paginator.numberedPage query number limit).value.1 = ask number := by
  intro rows size last ask
  have hlength : (SortKey.sort query.keys rows).length = rows.length := SortKey.length_sort query.keys rows
  have hsize : 0 < size := clampPageSize_pos limit.toNat bound.toNat
  have hask (number : UInt64) :
      ask number = .ok (NumberedPage.ofRows (SortKey.sort query.keys rows) size (max number.toNat 1)) :=
    numberedPageWithin_ofRows hfetches hcounts hwords _ _ _
  refine ⟨SortKey.sort query.keys rows, SortKey.stablySorts_iff _ _, fun number => ?_, ?_, ?_, ?_⟩
  · refine ⟨_, hask number, rfl, rfl, hlength, ?_, rfl, ?_, decide_eq_true_iff, ?_⟩
    · exact congrArg (fun total => (total + size - 1) / size) hlength
    · rw [NumberedPage.hasNext_ofRows hsize, hlength]
      rfl
    · rw [NumberedPage.items_ofRows_eq_nil_iff hsize (Nat.le_max_right _ _), hlength]
      rfl
  · refine ⟨NumberedPage.tiling (SortKey.sort query.keys rows) size, ?_, fun index page hpage => ?_,
      NumberedPage.flatMap_tiling hsize⟩
    · rw [NumberedPage.tiling, List.length_map, List.length_range, hlength]
    · obtain ⟨rfl, hle⟩ := NumberedPage.of_getElem?_tiling hsize hpage
      have hword : index + 1 < UInt64.size := Nat.lt_of_le_of_lt (hlength ▸ hle) hwords
      refine ⟨UInt64.ofNatLT _ hword, UInt64.toNat_ofNatLT, ?_⟩
      rw [hask, UInt64.toNat_ofNatLT, Nat.max_eq_left (Nat.le_add_left 1 index)]
  · rintro rfl number
    rfl
  · rintro paginator rfl number
    exact congrArg Prod.fst (paginator.logging.value_deliver _)

/-- The last number there is, whose offset is cut off, and the number of the last page that has rows. -/
theorem numberedPage_boundedQuery :
    boundedQuery.failure ≠ some .execute ∧ boundedQuery.Counts ∧
      boundedQuery.matching.length < UInt64.size ∧
      (∃ page, (numberedPage boundedQuery 18446744073709551615 2).value.1 = .ok page ∧
        page.items = [] ∧ page.hasNext = false ∧ page.total = 3) ∧
      ∃ page, (numberedPage boundedQuery 2 2).value.1 = .ok page ∧ page.items ≠ [] ∧ page.totalPages = 2 := by
  have hfetches : boundedQuery.failure ≠ some .execute := nofun
  have hcounts : boundedQuery.Counts := by decide
  have hwords : boundedQuery.matching.length < UInt64.size := by decide
  obtain ⟨sorted, _, hpages, _, hask, _⟩ := numbered_pages_partition hfetches hcounts hwords 2 100
  obtain ⟨beyond, hbeyond, hnumber, _, htotal, _, _, hnext, _, hempty⟩ := hpages 18446744073709551615
  obtain ⟨final, hfinal, hfinalNumber, _, _, hlast, _, _, _, hfilled⟩ := hpages 2
  refine ⟨hfetches, hcounts, hwords, ⟨beyond, (hask rfl _).trans hbeyond, hempty.mpr ?_, ?_, htotal⟩,
    final, (hask rfl _).trans hfinal, fun hnone => ?_, hlast⟩
  · rw [hnumber]
    decide
  · rw [← Bool.not_eq_true, hnext, hnumber]
    decide
  · rw [hfilled, hfinalNumber] at hnone
    exact absurd hnone (by decide)

end Table.Query

end Paging
