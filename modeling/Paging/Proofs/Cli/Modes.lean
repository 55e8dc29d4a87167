import Paging.Cli.Run
import Paging.Proofs.Paginator.NumberedPage
import Paging.Proofs.Paginator.OffsetPage

/-!
Page mode and offset mode of the command line. A page by its number and the page after the rows of the pages
before it show the same rows and tell the same of their neighbours.
-/

namespace Paging.Cli.Invocation

/-- The invocation in page mode. -/
def atPage (invocation : Invocation) (number : UInt64) : Invocation :=
  { invocation with page := some number, offset := none }

/-- The invocation in offset mode. -/
def atOffset (invocation : Invocation) (offset : UInt64) : Invocation :=
  { invocation with page := none, offset := some offset }

/-- The page size that is asked for, or else that of the policy, within the bound of the policy. -/
def effectiveLimit (invocation : Invocation) : Nat :=
  clampPageSize invocation.pageSize.toNat invocation.policy.maxLimit.toNat

/-- An invocation with a valid policy has a paginator, whichever page there can be it asks for. -/
theorem paginator?_eq (invocation : Invocation) (hpolicy : invocation.policy.Valid)
    (hpage : invocation.page ≠ some 0) :
    invocation.paginator? = .ok { policy := invocation.policy, valid := hpolicy } := by
  rw [paginator?, Paginator.value_ofPolicy hpolicy]
  exact if_neg hpage

/-- The request of offset mode, where rows are counted. -/
theorem request_atOffset (invocation : Invocation) (offset : UInt64) (hcount : invocation.noCount = false) :
    (invocation.atOffset offset).request =
      { sort := invocation.sort, tieBreaker := .asc invocation.tieBreaker, limit := invocation.limit,
        cursor := invocation.cursor, offset := some offset, offsetMode := true } := by
  simp only [request, atOffset, hcount, Bool.false_eq_true, if_false, Request.withOffset]

/-- Both modes set up one order. -/
theorem numberedQuery_eq (invocation : Invocation) (table : Table Json.Object) {request : Request}
    (hsort : request.sort = invocation.sort) (htie : request.tieBreaker = .asc invocation.tieBreaker) :
    invocation.numberedQuery table = { table.query with keys := request.keys } := by
  rw [← Paginator.ordered_query, Paginator.ordered, hsort, htie]
  rfl

/-- Both modes allow a page as many rows. -/
theorem pageSizeUnder_eq (invocation : Invocation) {request : Request} (hlimit : request.limit = invocation.limit) :
    request.pageSizeUnder invocation.policy = invocation.effectiveLimit := by
  rw [Request.pageSizeUnder, Request.limitWithin, hlimit, effectiveLimit, pageSize]
  cases invocation.limit <;> rfl

/-- The rows of a page from a position on, in the order of an invocation. -/
def rowsFrom (invocation : Invocation) (table : Table Json.Object) (offset : UInt64) : List Json.Object :=
  let rows := SortKey.sort (invocation.atOffset offset).request.keys table.rows
  (rows.drop offset.toNat).take invocation.effectiveLimit

section Modes

variable {invocation : Invocation} {paginator : Paginator} (table : Table Json.Object) {number offset : UInt64}
  (hpolicy : paginator.policy = invocation.policy) (hcount : invocation.noCount = false)
  (hnumber : 1 ≤ number.toNat) (hoffset : offset.toNat = (number.toNat - 1) * invocation.effectiveLimit)
include hpolicy hcount hnumber hoffset

theorem numberedPage_atPage :
    let limit := invocation.effectiveLimit
    let total := table.rows.length
    (paginator.numberedPage (invocation.numberedQuery table) number invocation.pageSize).value.1 =
      .ok ⟨invocation.rowsFrom table offset, total, number.toNat, limit, (total + limit - 1) / limit⟩ := by
  have hrequest := invocation.request_atOffset offset hcount
  have hquery := invocation.numberedQuery_eq table (congrArg Request.sort hrequest)
    (congrArg Request.tieBreaker hrequest)
  have hlimit : clampPageSize invocation.pageSize.toNat paginator.policy.maxLimit.toNat =
      invocation.effectiveLimit := by
    rw [hpolicy]
    rfl
  have hpage : max number.toNat 1 = number.toNat := Nat.max_eq_left hnumber
  have hstart : pageOffset number.toNat invocation.effectiveLimit = offset.toNat := by
    rw [pageOffset_eq (hoffset ▸ offset.toNat_lt_size), hoffset]
  intro limit total
  rw [hquery, paginator.numberedPage_table]
  simp only [hlimit, hpage, hstart]
  exact congrArg Except.ok (NumberedPage.of_eq _ _ _ (clampPageSize_pos _ _))

theorem pageOf_atOffset (hcounts : paginator.policy.includeCount = true) :
    let limit := invocation.effectiveLimit
    let total := table.rows.length
    paginator.pageOf table (invocation.atOffset offset).request =
      .ok
        { items := invocation.rowsFrom table offset
          hasNext := decide (number.toNat < (total + limit - 1) / limit)
          hasPrevious := decide (1 < number.toNat)
          totalCount := some total } := by
  have hrequest := invocation.request_atOffset offset hcount
  have hmode : (invocation.atOffset offset).request.offsetMode = true := congrArg Request.offsetMode hrequest
  have hskipped : (invocation.atOffset offset).request.skipped = offset.toNat := by
    rw [hrequest]
    rfl
  have hcounted : (invocation.atOffset offset).request.countsUnder paginator.policy = true := by
    rw [hrequest]
    exact hcounts
  have hlimit : (invocation.atOffset offset).request.pageSizeUnder paginator.policy = invocation.effectiveLimit := by
    rw [hpolicy, invocation.pageSizeUnder_eq (congrArg Request.limit hrequest)]
  intro limit total
  have hpos : 0 < limit := clampPageSize_pos _ _
  -- the page ends where the pages up to its number do
  have hend : number.toNat * limit = offset.toNat + limit := by
    rw [hoffset, ← Nat.succ_mul, Nat.succ_eq_add_one, Nat.sub_add_cancel hnumber]
  have hnext : offset.toNat + (invocation.rowsFrom table offset).length < total ↔
      number.toNat < (total + limit - 1) / limit := by
    rw [lt_pages_iff _ _ hpos, hend, rowsFrom]
    exact SortKey.add_length_slice_lt_iff _ _ _ _
  have hprevious : 0 < offset.toNat ↔ 1 < number.toNat := by
    rw [hoffset, Nat.mul_pos_iff_of_pos_right hpos, Nat.sub_pos_iff_lt]
  rw [paginator.pageOf_offset table hmode]
  simp only [hskipped, hcounted, hlimit, if_true, Bool.true_and, ← hnext, ← hprevious]
  rfl

end Modes

/--
The pages of both modes as they are written. They have the same rows and the same total, and offset mode tells
of a neighbour exactly if there is a page of the number before or after in page mode.
-/
theorem answer_atPage_atOffset (invocation : Invocation) (table : Table Json.Object) (number offset : UInt64)
    (hpolicy : invocation.policy.Valid) (hcounts : invocation.policy.includeCount = true)
    (hcount : invocation.noCount = false) (hnumber : 1 ≤ number.toNat)
    (hoffset : offset.toNat = (number.toNat - 1) * invocation.effectiveLimit) :
    let limit := invocation.effectiveLimit
    let items := (invocation.rowsFrom table offset).map Json.Value.object
    let total := table.rows.length
    let pages := (total + limit - 1) / limit
    ∃ paginator,
      (invocation.atPage number).paginator? = .ok paginator ∧
      (invocation.atOffset offset).paginator? = .ok paginator ∧
      (invocation.atPage number).answer paginator table = .ok (.ofMembers
        [("items", .array items), ("total", .ofNat total), ("page", .ofNat number.toNat), ("limit", .ofNat limit),
          ("totalPages", .ofNat pages)]) ∧
      (invocation.atOffset offset).answer paginator table = .ok (.ofMembers
        [("items", .array items), ("hasNextPage", .bool (decide (number.toNat < pages))),
          ("hasPreviousPage", .bool (decide (1 < number.toNat))), ("totalCount", .ofNat total)]) := by
  intro limit items total pages
  have hpage : (invocation.atPage number).page ≠ some 0 := by
    rintro ⟨⟩
    exact absurd hnumber (by decide)
  let paginator : Paginator := { policy := invocation.policy, valid := hpolicy }
  refine ⟨paginator, (invocation.atPage number).paginator?_eq hpolicy hpage,
    (invocation.atOffset offset).paginator?_eq hpolicy nofun, ?_, ?_⟩
  · exact congrArg (Except.map _) (@numberedPage_atPage _ paginator table _ _ rfl hcount hnumber hoffset)
  · exact congrArg (Except.map _) (@pageOf_atOffset _ paginator table _ _ rfl hcount hnumber hoffset hcounts)

/-- The second page of two rows each of three rows, which is the page after two rows. -/
theorem answer_second_page :
    let invocation : Invocation :=
      { input := "rows.json", sort := .desc "rank", tieBreaker := "id", limit := some 2, cursor := none,
        offset := none, page := none, noCount := false, policy := {} }
    let table : Table Json.Object :=
      ⟨[[("id", .ofWord 1), ("rank", .ofWord 5)], [("id", .ofWord 2)], [("id", .ofWord 3), ("rank", .ofWord 5)]]⟩
    ∃ paginator items,
      (invocation.atPage 2).answer paginator table = .ok (.ofMembers
        [("items", .array items), ("total", .ofNat 3), ("page", .ofNat 2), ("limit", .ofNat 2),
          ("totalPages", .ofNat 2)]) ∧
      (invocation.atOffset 2).answer paginator table = .ok (.ofMembers
        [("items", .array items), ("hasNextPage", .bool false), ("hasPreviousPage", .bool true),
          ("totalCount", .ofNat 3)]) := by
  intro invocation table
  obtain ⟨paginator, _, _, hnumbered, hskipped⟩ := invocation.answer_atPage_atOffset table 2 2
    Policy.valid_default rfl rfl (by decide) (by decide)
  have hlimit : invocation.effectiveLimit = 2 := by decide
  have hlength : table.rows.length = 3 := rfl
  have hnumber : (2 : UInt64).toNat = 2 := rfl
  rw [hlimit, hlength, hnumber] at hnumbered hskipped
  exact ⟨paginator, _, hnumbered, hskipped⟩

end Paging.Cli.Invocation
