import Paging.Proofs.Paginator.OffsetPage
import Paging.Proofs.Walk.Advance
import Paging.Proofs.Walk.Ties

/-!
Walks against pages by position. Where every row has a value and no two rows have equal ones, going on
after the last value of a page leaves exactly the rows that skipping the page leaves. So a walk is made of
the pages in offset mode, except that each of its pages counts from itself onwards.
-/

namespace Paging

variable {ρ : Type} [Row ρ]

namespace Request

variable {request : Request} {rows : List ρ}

/-- What remains after a page of rows of different values is what remained after its rows. -/
theorem remaining_goOn_eq_drop (hvalues : ∀ row ∈ rows, (Row.value? row request.sort.field).isSome = true)
    (hdistinct : rows.Pairwise fun a b => SortKey.compareBy request.sort a b ≠ .eq) {limit : Nat}
    {boundary : Scalar} (hfinite : boundary.isFinite = true)
    (hboundary : ((request.remaining rows).take limit).getLast?.bind (request.valueAt? rows) =
      some boundary) :
    (request.goOn boundary).remaining rows = (request.remaining rows).drop limit := by
  rw [request.remaining_goOn rows hfinite hboundary]
  refine List.filter_eq_self.mpr fun i hi => ?_
  obtain ⟨j, hlast, hvalue⟩ := Visits.exists_getLast?_of_bind hboundary
  have hordered := request.pairwise_remaining rows
  rw [← List.take_append_drop limit (request.remaining rows), List.pairwise_append] at hordered
  have hprecedes := hordered.2.2 j (List.mem_of_getLast? hlast) i hi
  have hdiffer : j ≠ i := by
    rintro rfl
    exact SortKey.precedes_asymm request.keys rows j j hprecedes hprecedes
  have hle := SortKey.isLE_of_precedes rows hprecedes
  rw [hvalue] at hle
  rcases RangeFilter.admits_after_of_isLE hle with hbeyond | hnone | ⟨value, hi, htie⟩
  · exact hbeyond
  · exact absurd hnone (Option.isSome_iff_ne_none.mp (hvalues _ (List.get_mem rows i)))
  · have htied : Visits.Tied (request.valueAt? rows) j i := ⟨boundary, value, hvalue, hi, htie⟩
    exact absurd (compareBy_eq_of_tied htied) (ne_eq_of_pairwise hdistinct hdiffer)

theorem found_fromStart : Keyset.found request.fromStart rows = SortKey.sort request.keys rows :=
  congrArg (SortKey.sort request.keys) (List.filter_eq_self.mpr fun _ _ => rfl)

/-- What is found after a page of rows of different values is what was found, without its rows. -/
theorem found_goOn (hvalues : ∀ row ∈ rows, (Row.value? row request.sort.field).isSome = true)
    (hdistinct : rows.Pairwise fun a b => SortKey.compareBy request.sort a b ≠ .eq) {limit : Nat} {last : ρ}
    (hlast : ((Keyset.found request rows).take limit).getLast? = some last) {boundary : Scalar}
    (hboundary : Row.value? last request.sort.field = some boundary) (hfinite : boundary.isFinite = true) :
    Keyset.found (request.goOn boundary) rows = (Keyset.found request rows).drop limit := by
  rw [request.found_eq, ← List.map_take, List.getLast?_map] at hlast
  obtain ⟨i, hi, rfl⟩ := Option.map_eq_some_iff.mp hlast
  have hvalue : ((request.remaining rows).take limit).getLast?.bind (request.valueAt? rows) =
      some boundary := by
    rw [hi]
    exact hboundary
  rw [found_eq, found_eq, remaining_goOn_eq_drop hvalues hdistinct hfinite hvalue, List.map_drop]

end Request

/-! ### Lists cut into pages -/

/-- A page shows the first rows of a list, and tells how many there are and whether it leaves some out. -/
structure Shows (limit : Nat) (preceded : Bool) (list : List ρ) (page : Page ρ) : Prop where
  items : page.items = list.take limit
  hasNext : page.hasNext = decide (limit < list.length)
  hasPrevious : page.hasPrevious = preceded
  totalCount : page.totalCount = some list.length

/-- Pages show a list piece by piece, all of them full but the last one. -/
inductive Tiles (limit : Nat) : Bool → List ρ → List (Page ρ) → Prop
  | last {preceded : Bool} {list : List ρ} {page : Page ρ} (hpage : Shows limit preceded list page)
    (hend : list.length ≤ limit) : Tiles limit preceded list [page]
  | next {preceded : Bool} {list : List ρ} {page : Page ρ} {pages : List (Page ρ)}
    (hpage : Shows limit preceded list page) (hmore : limit < list.length)
    (hlater : Tiles limit true (list.drop limit) pages) : Tiles limit preceded list (page :: pages)

namespace Tiles

variable {limit : Nat} {preceded : Bool} {list : List ρ} {pages : List (Page ρ)}

omit [Row ρ] in
theorem length_eq (hlimit : 0 < limit) (h : Tiles limit preceded list pages) :
    pages.length = max 1 ((list.length + limit - 1) / limit) := by
  induction h with
  | @last _ list _ _ hend =>
    have hone : (list.length + limit - 1) / limit < 2 := by
      rw [Nat.div_lt_iff_lt_mul hlimit]
      omega
    simp only [List.length_singleton]
    omega
  | @next _ list _ _ _ hmore _ ih =>
    have hrest : list.length + limit - 1 = ((list.drop limit).length + limit - 1) + limit := by
      rw [List.length_drop]
      omega
    have hsome : 0 < ((list.drop limit).length + limit - 1) / limit := by
      apply Nat.div_pos _ hlimit
      rw [List.length_drop]
      omega
    rw [List.length_cons, ih, hrest, Nat.add_div_right _ hlimit]
    omega

omit [Row ρ] in
/-- The page of an index shows what is left of the list when the pages before it are full. -/
theorem shows_of_getElem? (h : Tiles limit preceded list pages) {index : Nat} {page : Page ρ}
    (hpage : pages[index]? = some page) :
    index * limit ≤ list.length ∧
      Shows limit (preceded || decide (0 < index)) (list.drop (index * limit)) page := by
  induction h generalizing index with
  | @last preceded list first hfirst _ =>
    cases index with
    | zero =>
      obtain rfl := Option.some.inj hpage
      rw [Nat.zero_mul, Bool.or_comm]
      exact ⟨Nat.zero_le _, hfirst⟩
    | succ index => cases hpage
  | @next preceded list first pages hfirst hmore _ ih =>
    cases index with
    | zero =>
      obtain rfl := Option.some.inj hpage
      rw [Nat.zero_mul, Bool.or_comm]
      exact ⟨Nat.zero_le _, hfirst⟩
    | succ index =>
      obtain ⟨hle, hshows⟩ := ih hpage
      have hrest : (index + 1) * limit = limit + index * limit := by
        rw [Nat.succ_mul, Nat.add_comm]
      rw [List.length_drop] at hle
      rw [List.drop_drop, ← hrest] at hshows
      refine ⟨by omega, ?_⟩
      rw [Bool.true_or] at hshows
      rw [decide_eq_true (Nat.succ_pos index), Bool.or_true]
      exact hshows

end Tiles

namespace Paginator

variable (paginator : Paginator) (table : Table ρ) {request : Request}

/-- Where all values are different, the request after a page finds exactly what the page leaves out. -/
theorem nextCursor_drop_cases (hmode : request.offsetMode = false)
    (hvalues : Valued request.sort.field table.rows)
    (hdistinct : table.rows.Pairwise fun a b => SortKey.compareBy request.sort a b ≠ .eq) {page : Page ρ}
    (hpage : paginator.pageOf table request = .ok page) :
    let limit := request.pageSizeUnder paginator.policy
    let found := Keyset.found request table.rows
    (found.length ≤ limit ∧ page.nextCursor = none) ∨
      (limit < found.length ∧ ∃ boundary, boundary.isFinite = true ∧
        page.nextCursor = some (Cursor.token ⟨request.sort.field, boundary⟩) ∧
        Keyset.found (request.goOn boundary) table.rows = found.drop limit) := by
  intro limit found
  rcases nextCursor_cases paginator table hmode hvalues hpage with
    hend | ⟨hmore, last, boundary, hlast, hboundary, hfinite, hnext⟩
  · exact Or.inl hend
  · have hrest := Request.found_goOn hvalues.isSome hdistinct hlast hboundary hfinite
    exact Or.inr ⟨hmore, boundary, hfinite, hnext, hrest⟩

/-- A page shows the rows found for it, and goes on after the last of them if it leaves some out. -/
theorem exists_shows (hmode : request.offsetMode = false)
    (hvalues : Valued request.sort.field table.rows)
    (hdistinct : table.rows.Pairwise fun a b => SortKey.compareBy request.sort a b ≠ .eq)
    (hcounts : request.countsUnder paginator.policy = true) :
    let limit := request.pageSizeUnder paginator.policy
    let found := Keyset.found request table.rows
    ∃ page, paginator.pageOf table request = .ok page ∧
      Shows limit request.boundary?.isSome found page ∧
      (found.length ≤ limit → page.nextCursor = none) ∧
      (limit < found.length → ∃ boundary, boundary.isFinite = true ∧
        page.nextCursor = some (Cursor.token ⟨request.sort.field, boundary⟩) ∧
        Keyset.found (request.goOn boundary) table.rows = found.drop limit) := by
  intro limit found
  have hpage := pageOf_keyset paginator table hmode
  have hcases := nextCursor_drop_cases paginator table hmode hvalues hdistinct hpage
  refine ⟨_, hpage, ⟨rfl, rfl, rfl, if_pos hcounts⟩, fun hend => ?_, fun hmore => ?_⟩
  · rcases hcases with ⟨_, hnone⟩ | ⟨hmore, _⟩
    · exact hnone
    · exact absurd hmore (Nat.not_lt_of_le hend)
  · rcases hcases with ⟨hend, _⟩ | ⟨_, hrest⟩
    · exact absurd hmore (Nat.not_lt_of_le hend)
    · exact hrest

/-- A walk along rows of different values shows what is found for its request piece by piece. -/
theorem exists_tiles (hmode : request.offsetMode = false)
    (hvalues : Valued request.sort.field table.rows)
    (hdistinct : table.rows.Pairwise fun a b => SortKey.compareBy request.sort a b ≠ .eq)
    (hcounts : request.countsUnder paginator.policy = true) :
    ∃ pages, (∀ count, pages.length ≤ count → paginator.walk table request count = .ok pages) ∧
      (∃ page, pages.getLast? = some page ∧ page.nextCursor = none) ∧
      Tiles (request.pageSizeUnder paginator.policy) request.boundary?.isSome
        (Keyset.found request table.rows) pages := by
  induction hlength : (Keyset.found request table.rows).length using Nat.strongRecOn generalizing request with
  | ind length ih =>
    have hlimit := request.pageSizeUnder_pos paginator.policy
    obtain ⟨page, hpage, hshows, hend, hmore⟩ :=
      exists_shows paginator table hmode hvalues hdistinct hcounts
    by_cases hfull : request.pageSizeUnder paginator.policy < (Keyset.found request table.rows).length
    · obtain ⟨boundary, hfinite, hnext, hrest⟩ := hmore hfull
      have hless : (Keyset.found (request.goOn boundary) table.rows).length < length := by
        rw [hrest, List.length_drop]
        omega
      obtain ⟨later, hwalk, ⟨last, hlast, hnone⟩, htiles⟩ :=
        @ih _ hless (request.goOn boundary) hmode hvalues hdistinct hcounts rfl
      rw [hrest, request.boundary?_goOn hfinite] at htiles
      refine ⟨page :: later, paginator.walk_eq_of_next table hpage hnext hwalk, ⟨last, ?_, hnone⟩,
        .next hshows hfull htiles⟩
      rw [List.getLast?_cons, hlast]
      rfl
    · have hall := Nat.le_of_not_lt hfull
      have hnone := hend hall
      exact ⟨[page], paginator.walk_eq_of_last table hpage hnone, ⟨page, rfl, hnone⟩, .last hshows hall⟩

/-- What a page shows after a number of rows is what the page in offset mode shows that skips them. -/
theorem exists_offset_of_shows {offset : UInt64} {page : Page ρ}
    (hcounts : request.countsUnder paginator.policy = true) (hle : offset.toNat ≤ table.rows.length)
    (hshows : Shows (request.pageSizeUnder paginator.policy) (decide (0 < offset.toNat))
      ((SortKey.sort request.keys table.rows).drop offset.toNat) page) :
    ∃ other, paginator.pageOf table (request.withOffset offset) = .ok other ∧
      page.items = other.items ∧ page.hasNext = other.hasNext ∧ page.hasPrevious = other.hasPrevious ∧
      ∃ total, other.totalCount = some total ∧ offset.toNat ≤ total ∧
        page.totalCount = some (total - offset.toNat) := by
  have hlength := SortKey.length_sort request.keys table.rows
  have hother := pageOf_offset paginator table (show (request.withOffset offset).offsetMode = true from rfl)
  refine ⟨_, hother, hshows.items, ?_, hshows.hasPrevious, table.rows.length, if_pos hcounts, hle, ?_⟩
  · rw [hshows.hasNext]
    change _ = (request.countsUnder paginator.policy && decide (offset.toNat +
      (((SortKey.sort request.keys table.rows).drop offset.toNat).take
        (request.pageSizeUnder paginator.policy)).length < table.rows.length))
    rw [hcounts, Bool.true_and, List.length_drop, hlength, decide_eq_decide, SortKey.add_length_slice_lt_iff]
    omega
  · rw [hshows.totalCount, List.length_drop, hlength]

/--
A walk along JSON rows of different values has as many pages as these rows fill, and each of them is the
page in offset mode that skips the rows before it. What it counts are the rows from itself onwards, where
the page in offset mode counts all rows.
-/
theorem walk_agrees_with_offsets (table : Table Json.Object) (request : Request)
    (hvalues : ∀ row ∈ table.rows, (Row.value? row request.sort.field).isSome = true)
    (hdistinct : table.rows.Pairwise fun a b => SortKey.compareBy request.sort a b ≠ .eq)
    (hcounts : request.countsUnder paginator.policy = true) :
    let limit := request.pageSizeUnder paginator.policy
    ∃ pages, (∀ count, pages.length ≤ count → paginator.walk table request.fromStart count = .ok pages) ∧
      (∃ page, pages.getLast? = some page ∧ page.nextCursor = none) ∧
      pages.length = max 1 ((table.rows.length + limit - 1) / limit) ∧
      ∀ index page, pages[index]? = some page → ∀ offset : UInt64, offset.toNat = index * limit →
        ∃ other, paginator.pageOf table (request.withOffset offset) = .ok other ∧
          page.items = other.items ∧ page.hasNext = other.hasNext ∧ page.hasPrevious = other.hasPrevious ∧
          ∃ total, other.totalCount = some total ∧ offset.toNat ≤ total ∧
            page.totalCount = some (total - offset.toNat) := by
  intro limit
  have hlimit : 0 < limit := request.pageSizeUnder_pos paginator.policy
  have hmode : request.fromStart.offsetMode = false := rfl
  obtain ⟨pages, hwalk, hends, htiles⟩ := exists_tiles paginator table hmode
    (valued_of_isSome hvalues) hdistinct hcounts
  rw [Request.found_fromStart] at htiles
  refine ⟨pages, hwalk, hends, ?_, fun index page hpage offset hoffset => ?_⟩
  · rw [← SortKey.length_sort request.keys table.rows]
    exact htiles.length_eq hlimit
  · obtain ⟨hle, hshows⟩ := htiles.shows_of_getElem? hpage
    change index * limit ≤ _ at hle
    change Shows limit (false || decide (0 < index)) (List.drop (index * limit) _) page at hshows
    have hpreceded : decide (0 < index) = decide (0 < index * limit) :=
      decide_eq_decide.mpr (Nat.mul_pos_iff_of_pos_right hlimit).symm
    rw [SortKey.length_sort, ← hoffset] at hle
    rw [Bool.false_or, hpreceded, ← hoffset] at hshows
    exact exists_offset_of_shows paginator table hcounts hle hshows

/-- The second of two pages of one row each is the page that skips one row. -/
theorem walk_untiedTable_offsets :
    ∃ first second other, (default : Paginator).walk untiedTable rankRequest.fromStart 2 = .ok [first, second] ∧
      (default : Paginator).pageOf untiedTable (rankRequest.withOffset 1) = .ok other ∧
      second.items = other.items ∧ second.hasNext = other.hasNext ∧ other.totalCount.isSome = true := by
  obtain ⟨pages, hwalk, _, hlength, hagree⟩ := walk_agrees_with_offsets default untiedTable rankRequest
    tellsApart_untiedTable.sorted (by decide +kernel) rfl
  have htwo : pages.length = 2 := hlength
  obtain ⟨first, second, rfl⟩ := List.length_eq_two.mp htwo
  obtain ⟨other, hother, hitems, hnext, _, total, htotal, _⟩ := hagree 1 second rfl 1 rfl
  refine ⟨first, second, other, hwalk 2 (Nat.le_refl _), hother, hitems, hnext, ?_⟩
  rw [htotal]
  rfl

end Paginator

end Paging
