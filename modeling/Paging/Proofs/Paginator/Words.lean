import Paging.Proofs.Paginator.Failures
import Paging.Proofs.Paginator.KnownTotal

/-!
The arithmetic of a paginator, carried out in words. Here a sum, a difference and a clamp have no result where a
word cannot hold it or the bounds are not in order. All of them have one for a query over no more rows than a word
can count, and it is the number that the pages are made with: a page that shows a row starts within the rows, and
an empty page adds nothing to its offset, which may be any word.
-/

namespace Paging

namespace Word

/-- The sum of two words, if a word holds it. -/
def add? (a b : UInt64) : Option UInt64 := if a.toNat + b.toNat < UInt64.size then some (a + b) else none

/-- The difference of two words, unless it is below zero. -/
def sub? (a b : UInt64) : Option UInt64 := if b ≤ a then some (a - b) else none

/-- The product of two words, or the largest word where none holds it. -/
def mulSaturating (a b : UInt64) : UInt64 :=
  if a.toNat * b.toNat < UInt64.size then a * b else 18446744073709551615

/-- A word kept between two bounds, if they are in order. -/
def clamp? (word low high : UInt64) : Option UInt64 :=
  if low ≤ high then some (if word < low then low else if high < word then high else word) else none

/-- The size of a page for which a size was wanted, under a bound. -/
def pageSize? (wanted bound : UInt64) : Option UInt64 := do
  let bound ← clamp? bound 1 100
  clamp? wanted 1 bound

/-- The number of rows before a numbered page. -/
def pageStart? (number wanted bound : UInt64) : Option UInt64 := do
  let before ← sub? (if number < 1 then 1 else number) 1
  let size ← pageSize? wanted bound
  return mulSaturating before size

theorem map_toNat_add? {a b : UInt64} (h : a.toNat + b.toNat < UInt64.size) :
    (add? a b).map UInt64.toNat = some (a.toNat + b.toNat) := by
  rw [add?, if_pos h, Option.map_some, UInt64.toNat_add, Nat.mod_eq_of_lt h]

/-- A number of rows is counted in words before it is added. -/
theorem map_toNat_add?_ofNat {start : UInt64} {count : Nat} (h : start.toNat + count < UInt64.size) :
    (add? start (.ofNat count)).map UInt64.toNat = some (start.toNat + count) := by
  have hcount : (UInt64.ofNat count).toNat = count :=
    UInt64.toNat_ofNat_of_lt' (Nat.lt_of_le_of_lt (Nat.le_add_left _ _) h)
  rw [map_toNat_add? (hcount.symm ▸ h), hcount]

theorem exists_sub? {a b : UInt64} (h : b ≤ a) : ∃ word, sub? a b = some word ∧ word.toNat = a.toNat - b.toNat :=
  ⟨a - b, if_pos h, UInt64.toNat_sub_of_le a b h⟩

theorem toNat_mulSaturating (a b : UInt64) : (mulSaturating a b).toNat = saturatingMul a.toNat b.toNat := by
  unfold mulSaturating saturatingMul
  split
  · rename_i hproduct
    rw [UInt64.toNat_mul, Nat.mod_eq_of_lt hproduct, Nat.min_eq_left (Nat.le_sub_one_of_lt hproduct)]
  · rename_i hproduct
    have hlargest : (18446744073709551615 : UInt64).toNat = UInt64.size - 1 := rfl
    rw [hlargest, Nat.min_eq_right (Nat.le_trans (Nat.sub_le _ _) (Nat.le_of_not_lt hproduct))]

theorem exists_clamp? (word : UInt64) {low high : UInt64} (h : low ≤ high) :
    ∃ clamped, clamp? word low high = some clamped ∧
      clamped.toNat = min (max word.toNat low.toNat) high.toNat := by
  refine ⟨_, if_pos h, ?_⟩
  simp only [UInt64.le_iff_toNat_le, UInt64.lt_iff_toNat_lt] at h ⊢
  split
  · omega
  · split
    · omega
    · omega

/-- Neither clamp of a page size has its bounds out of order: the bound of the second one is the first one's result. -/
theorem exists_pageSize? (wanted bound : UInt64) :
    ∃ size, pageSize? wanted bound = some size ∧ size.toNat = clampPageSize wanted.toNat bound.toNat := by
  obtain ⟨kept, hkept, hbound⟩ := exists_clamp? bound (show (1 : UInt64) ≤ 100 by decide)
  have hone : (1 : UInt64).toNat = 1 := rfl
  have hmax : (100 : UInt64).toNat = 100 := rfl
  have hordered : (1 : UInt64) ≤ kept := by
    rw [UInt64.le_iff_toNat_le]
    omega
  obtain ⟨size, hsize, hvalue⟩ := exists_clamp? wanted hordered
  refine ⟨size, ?_, ?_⟩
  · rw [pageSize?, hkept]
    exact hsize
  · rw [hvalue, hbound, hone, hmax]
    rfl

theorem exists_pageStart? (number wanted bound : UInt64) :
    ∃ start, pageStart? number wanted bound = some start ∧
      start.toNat = pageOffset (max number.toNat 1) (clampPageSize wanted.toNat bound.toNat) := by
  have hone : (1 : UInt64).toNat = 1 := rfl
  have hnumber : (if number < 1 then 1 else number).toNat = max number.toNat 1 := by
    simp only [UInt64.lt_iff_toNat_lt]
    split
    · omega
    · omega
  have hordered : 1 ≤ if number < 1 then 1 else number := by
    rw [UInt64.le_iff_toNat_le, hnumber]
    exact Nat.le_max_right _ _
  obtain ⟨before, hbefore, hpages⟩ := exists_sub? hordered
  obtain ⟨size, hsize, hrows⟩ := exists_pageSize? wanted bound
  refine ⟨mulSaturating before size, ?_, ?_⟩
  · rw [pageStart?, hbefore, hsize]
    rfl
  · rw [toNat_mulSaturating, hpages, hnumber, hrows]
    rfl

end Word

theorem pageOffset_lt (page limit : Nat) : pageOffset page limit < UInt64.size :=
  Nat.lt_of_le_of_lt (Nat.min_le_right _ _) (by decide)

section

variable {ρ : Type} [Row ρ]

namespace Table.Query

theorem length_matching_le (query : Query ρ) : query.matching.length ≤ query.rows.length :=
  List.length_filter_le _ _

/-- Where a page shows rows, it ends within those of the query; where it shows none, it ends where it starts. -/
theorem add_length_slice_lt {query : Query ρ} (hwords : query.rows.length < UInt64.size) (keys : List SortKey)
    {offset : Nat} (hoffset : offset < UInt64.size) (size : Nat) :
    offset + (((SortKey.sort keys query.matching).drop offset).take size).length < UInt64.size := by
  have hrows := query.length_matching_le
  rw [SortKey.length_slice_sort]
  omega

end Table.Query

namespace Paginator

variable (paginator : Paginator) {query : Table.Query ρ} (hwords : query.rows.length < UInt64.size)
include hwords

theorem add?_offsetPage {request : Request} (hmode : request.offsetMode = true) :
    match (paginator.paginate query request).value.1 with
    | .ok page => (Word.add? (request.offset.getD 0) (.ofNat page.items.length)).map UInt64.toNat =
        some (request.skipped + page.items.length)
    | .error error => query.failure = some .execute ∧ error = .injected .execute := by
  have hoffset : (request.offset.getD 0).toNat = request.skipped := (Option.getD_map UInt64.toNat 0 _).symm
  by_cases hfetches : query.failure = some .execute
  · have hpage := (paginator.paginate_query_eq_error_iff query request).mpr ⟨hfetches, rfl⟩
    rw [hpage]
    exact ⟨hfetches, rfl⟩
  · rw [paginator.paginate_offset hfetches hmode, ← hoffset]
    apply Word.map_toNat_add?_ofNat
    rw [hoffset]
    exact Table.Query.add_length_slice_lt hwords request.keys request.skipped_lt _

omit paginator in
theorem add?_numberedPageWithin (number limit bound : Nat) {start : UInt64}
    (hstart : start.toNat = pageOffset (max number 1) (clampPageSize limit bound)) :
    match (numberedPageWithin query number limit bound).value.1 with
    | .ok page => (Word.add? start (.ofNat page.items.length)).map UInt64.toNat =
          some (start.toNat + page.items.length) ∧
        (query.countable = false → page.total = start.toNat + page.items.length)
    | .error error => ∃ operation, query.failure = some operation ∧ error = .injected operation := by
  by_cases hfetches : query.failure = some .execute
  · rw [Table.Query.numberedPageWithin_of_failing hfetches]
    exact ⟨.execute, hfetches, rfl⟩
  · rw [Table.Query.numberedPageWithin_of_fetching hfetches]
    cases hcount : query.count with
    | error error =>
      obtain ⟨_, hfailure, rfl⟩ := Table.Query.count_eq_error_iff.mp hcount
      exact ⟨.count, hfailure, rfl⟩
    | ok total =>
      refine ⟨?_, fun huncounted => ?_⟩
      · apply Word.map_toNat_add?_ofNat
        rw [hstart]
        exact Table.Query.add_length_slice_lt hwords query.keys (pageOffset_lt _ _) _
      · rw [Table.Query.count_of_uncounted huncounted] at hcount
        obtain rfl := Except.ok.inj hcount
        rw [hstart]
        rfl

/--
No sum or difference of a paginator leaves the words, and no clamp has its bounds out of order, for a query over
no more rows than a word can count, in whatever state it is: the row that is asked for in addition to a page, the
rows up to the end of a page in offset mode, the pages before a numbered one, and the total of one without a
count. The results are the numbers that the pages are made with.
-/
theorem words_suffice (request : Request) (number size : UInt64) :
    (∃ limit, Word.pageSize? (request.limit.getD paginator.policy.defaultLimit) paginator.policy.maxLimit =
        some limit ∧
      limit.toNat = request.pageSizeUnder paginator.policy ∧
      (Word.add? limit 1).map UInt64.toNat = some (request.pageSizeUnder paginator.policy + 1)) ∧
    (request.offsetMode = true →
      match (paginator.paginate query request).value.1 with
      | .ok page => (Word.add? (request.offset.getD 0) (.ofNat page.items.length)).map UInt64.toNat =
          some (request.skipped + page.items.length)
      | .error error => query.failure = some .execute ∧ error = .injected .execute) ∧
    ∀ bound result,
      (bound = paginator.policy.maxLimit ∧ result = (paginator.numberedPage query number size).value.1 ∨
        bound = 100 ∧ result = (Paging.numberedPage query number size).value.1) →
      ∃ start, Word.pageStart? number size bound = some start ∧
        start.toNat = pageOffset (max number.toNat 1) (clampPageSize size.toNat bound.toNat) ∧
        match result with
        | .ok page => (Word.add? start (.ofNat page.items.length)).map UInt64.toNat =
              some (start.toNat + page.items.length) ∧
            (query.countable = false → page.total = start.toNat + page.items.length)
        | .error error => ∃ operation, query.failure = some operation ∧ error = .injected operation := by
  refine ⟨?_, paginator.add?_offsetPage hwords, fun bound result hresult => ?_⟩
  · obtain ⟨limit, hlimit, hvalue⟩ :=
      Word.exists_pageSize? (request.limit.getD paginator.policy.defaultLimit) paginator.policy.maxLimit
    have hsize : limit.toNat = request.pageSizeUnder paginator.policy := by
      rw [hvalue, ← Option.getD_map UInt64.toNat]
      rfl
    have hbound := clampPageSize_le (request.limit.getD paginator.policy.defaultLimit).toNat
      paginator.policy.maxLimit.toNat
    -- whatever was asked for, a page has room for a hundred rows at most
    have hsmall : limit.toNat + (1 : UInt64).toNat < UInt64.size := by
      have hmax : limit.toNat ≤ 100 := hvalue ▸ Nat.le_trans hbound (Nat.min_le_right _ _)
      exact Nat.lt_of_le_of_lt (Nat.add_le_add_right hmax 1) (by decide)
    refine ⟨limit, hlimit, hsize, ?_⟩
    rw [Word.map_toNat_add? hsmall, hsize]
    rfl
  · obtain ⟨start, hstart, hvalue⟩ := Word.exists_pageStart? number size bound
    have hpage := add?_numberedPageWithin hwords number.toNat size.toNat bound.toNat hvalue
    refine ⟨start, hstart, hvalue, ?_⟩
    obtain ⟨rfl, rfl⟩ | ⟨rfl, rfl⟩ := hresult
    · rw [Paginator.numberedPage, Logging.value_deliver]
      exact hpage
    · exact hpage

end Paginator

end

namespace Paginator

/-- The request after as many rows as a word can count, for a page of as many. -/
def lastRequest : Request :=
  { sort := .asc "rank", limit := some 18446744073709551615, offset := some 18446744073709551615, offsetMode := true }

/-- The last offset there is, and the last page there is, whose total is made up of an offset that was cut off. -/
theorem words_suffice_at_last :
    boundedQuery.withoutCount.rows.length < UInt64.size ∧
      (∃ page, ((default : Paginator).paginate boundedQuery.withoutCount lastRequest).value.1 = .ok page ∧
        (Word.add? 18446744073709551615 (.ofNat page.items.length)).map UInt64.toNat =
          some (18446744073709551615 + page.items.length)) ∧
      ∃ page, (Paging.numberedPage boundedQuery.withoutCount 18446744073709551615 7).value.1 = .ok page ∧
        page.total = 18446744073709551615 + page.items.length := by
  have hwords : boundedQuery.withoutCount.rows.length < UInt64.size := by decide
  obtain ⟨_, hoffset, hnumbered⟩ := words_suffice default hwords lastRequest 18446744073709551615 7
  obtain ⟨start, _, hstart, htotal⟩ := hnumbered 100 _ (.inr ⟨rfl, rfl⟩)
  have hcutOff : start.toNat = 18446744073709551615 := hstart.trans (by decide)
  refine ⟨hwords, ?_, ?_⟩
  · have hpage := hoffset rfl
    split at hpage
    · rename_i page hvalue
      exact ⟨page, hvalue, hpage⟩
    · exact absurd hpage.1 (by decide)
  · split at htotal
    · rename_i page hvalue
      exact ⟨page, hvalue, hcutOff ▸ htotal.2 rfl⟩
    · obtain ⟨operation, hfailure, _⟩ := htotal
      cases hfailure

end Paginator

end Paging
