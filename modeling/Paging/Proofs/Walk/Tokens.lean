import Paging.Proofs.Paginator.Selection
import Paging.Proofs.Walk.Exact

/-!
The tokens that pages name, whatever the source. A token carries the value of a row on the edge of its
page, and is read as that value as long as it is finite. An infinite float or a NaN has a token all the
same, which is read as no cursor at all: a walk that comes to it starts over, and does so forever.
-/

namespace Paging

section

variable {σ ρ ε : Type} [Source σ ρ ε] [Row ρ]

/-- The token of a row is read as the row's value, if that is finite. -/
theorem Keyset.decode_of_tokenOf? {field : String} {row : Option ρ} {token : String}
    (h : tokenOf? field row = some token) :
    ∃ item ∈ row, ∃ value ∈ Row.value? item field,
      (Cursor.decode token).value = if value.isFinite then some ⟨field, value⟩ else none := by
  obtain ⟨item, hitem, value, hvalue, rfl⟩ := tokenOf?_eq_some_iff.mp h
  exact ⟨item, hitem, value, hvalue, by rw [Cursor.value_decode, Cursor.ofToken?_token_eq]⟩

namespace Paginator

variable {paginator : Paginator} {source : σ} {request : Request} {page : Page ρ}

/-- A page in either mode names no tokens but those of its first and its last row. -/
theorem tokenOf?_of_paginate (hpage : (paginator.paginate source request).value.1 = .ok page) :
    (∀ token ∈ page.nextCursor, Keyset.tokenOf? request.sort.field page.items.getLast? = some token) ∧
      ∀ token ∈ page.previousCursor, Keyset.tokenOf? request.sort.field page.items.head? = some token := by
  rw [value_paginate] at hpage
  cases hmode : request.offsetMode with
  | true =>
    simp only [hmode, if_true, value_offsetPage] at hpage
    obtain ⟨rows, _, rfl⟩ := exists_of_map_eq_ok hpage
    exact ⟨nofun, nofun⟩
  | false =>
    simp only [hmode, Bool.false_eq_true, if_false, Keyset.value_page] at hpage
    obtain ⟨rows, _, rfl⟩ := exists_of_map_eq_ok hpage
    rw [Keyset.value_assemble]
    refine ⟨fun token htoken => ?_, fun token htoken => ?_⟩
    · exact (Option.ite_none_right_eq_some.mp htoken).2
    · exact (Option.ite_none_right_eq_some.mp htoken).2

/--
The next cursor of a page is read as the sort value of its last row, and the previous one as that of its
first row. Where that value is an infinite float or a NaN, the cursor is there and is not readable.
-/
theorem decode_of_paginate (hpage : (paginator.paginate source request).value.1 = .ok page) :
    (∀ token ∈ page.nextCursor, ∃ item ∈ page.items.getLast?,
        ∃ value ∈ Row.value? item request.sort.field,
          (Cursor.decode token).value = if value.isFinite then some ⟨request.sort.field, value⟩ else none) ∧
      ∀ token ∈ page.previousCursor, ∃ item ∈ page.items.head?,
        ∃ value ∈ Row.value? item request.sort.field,
          (Cursor.decode token).value = if value.isFinite then some ⟨request.sort.field, value⟩ else none := by
  obtain ⟨hnext, hprevious⟩ := tokenOf?_of_paginate hpage
  refine ⟨fun token htoken => ?_, fun token htoken => ?_⟩
  · exact Keyset.decode_of_tokenOf? (hnext token htoken)
  · exact Keyset.decode_of_tokenOf? (hprevious token htoken)

end Paginator

end

/-! ### Walks that start over -/

variable {ρ : Type} [Row ρ]

namespace Paginator

variable (paginator : Paginator) (table : Table ρ)

/-- Of the cursor of a request, a page depends on no more than the value that it is read as. -/
theorem pageOf_withCursor {request : Request} (hmode : request.offsetMode = false) {token : String}
    (hboundary : (request.withCursor token).boundary? = request.boundary?) :
    paginator.pageOf table (request.withCursor token) = paginator.pageOf table request := by
  have hfound : Keyset.found (request.withCursor token) table.rows = Keyset.found request table.rows := by
    unfold Keyset.found Request.admits
    rw [hboundary]
    rfl
  exact pageOf_congr paginator hmode hfound (congrArg Option.isSome hboundary)

/-- A walk whose first page ends on a row without a readable token shows that page over and over. -/
theorem walk_eq_replicate {request : Request} (hmode : request.offsetMode = false)
    (hstart : request.boundary? = none) {page : Page ρ}
    (hpage : paginator.pageOf table request = .ok page) (hmore : page.hasNext = true) {item : ρ}
    (hlast : page.items.getLast? = some item) {value : Scalar}
    (hvalue : Row.value? item request.sort.field = some value) (hinfinite : value.isFinite = false)
    (count : Nat) : paginator.walk table request count = .ok (List.replicate count page) := by
  induction count generalizing request with
  | zero => rfl
  | succ count ih =>
    have hnext : page.nextCursor = some (Cursor.token ⟨request.sort.field, value⟩) := by
      obtain rfl := Except.ok.inj ((paginator.pageOf_keyset table hmode).symm.trans hpage)
      exact (if_pos hmore).trans (Keyset.tokenOf?_eq_some_iff.mpr ⟨item, hlast, value, hvalue, rfl⟩)
    have hrejected : (request.goOn value).boundary? = none := by
      rw [Request.boundary?, Request.goOn, Request.withCursor, Option.bind_some, Cursor.ofToken?_token_eq,
        if_neg (Bool.eq_false_iff.mp hinfinite)]
      rfl
    have hagain : paginator.pageOf table (request.goOn value) = .ok page :=
      (paginator.pageOf_withCursor table hmode (hrejected.trans hstart.symm)).trans hpage
    exact paginator.walk_next table hpage hnext (@ih (request.goOn value) hmode hrejected hagain hvalue)

/-! ### Tokens of either sort -/

/-- Rows of a finite and of an infinite rank, in order. -/
def boundedTable : Table TypedRow :=
  ⟨[⟨0, [("id", .int 0), ("rank", .int 5)]⟩,
    ⟨1, [("id", .int 1), ("rank", .float (.ofBits 0x7FF0000000000000))]⟩]⟩

theorem decode_boundedTable :
    ∃ page, ((default : Paginator).paginate boundedTable.query rankRequest).value.1 = .ok page ∧
      ∃ token ∈ page.nextCursor, (Cursor.decode token).value = some ⟨"rank", .int 5⟩ := by
  have hfound : Keyset.found rankRequest boundedTable.rows = boundedTable.rows := by
    rw [Keyset.found_of_pairwise _ (by decide +kernel)]
    rfl
  have hpage := (default : Paginator).pageOf_keyset boundedTable
    (show rankRequest.offsetMode = false from rfl)
  rw [hfound] at hpage
  obtain ⟨item, hitem, value, hvalue, hdecode⟩ :=
    (decode_of_paginate hpage).1 (Cursor.token ⟨"rank", .int 5⟩) rfl
  cases hitem
  cases hvalue
  exact ⟨_, hpage, _, rfl, hdecode⟩

/-- Rows of an infinite rank and of a NaN, in order. -/
def unboundedTable : Table TypedRow :=
  ⟨[⟨0, [("id", .int 0), ("rank", .float (.ofBits 0x7FF0000000000000))]⟩,
    ⟨1, [("id", .int 1), ("rank", .float (.ofBits 0x7FF8000000000000))]⟩]⟩

theorem found_unboundedTable : Keyset.found rankRequest unboundedTable.rows = unboundedTable.rows := by
  rw [Keyset.found_of_pairwise _ (by decide +kernel)]
  rfl

/-- The walk along these rows comes to no end and does not reach the second one. -/
theorem walk_unboundedTable (count : Nat) :
    ∃ page, page.items = [⟨0, [("id", .int 0), ("rank", .float (.ofBits 0x7FF0000000000000))]⟩] ∧
      (default : Paginator).walk unboundedTable rankRequest count = .ok (List.replicate count page) := by
  have hpage := (default : Paginator).pageOf_keyset unboundedTable
    (show rankRequest.offsetMode = false from rfl)
  rw [found_unboundedTable] at hpage
  exact ⟨_, rfl, walk_eq_replicate default unboundedTable rfl rfl hpage rfl rfl rfl rfl count⟩

/-- Not every token that a page names is readable. -/
theorem not_decode_of_paginate :
    ¬∀ (σ ρ ε : Type) [Source σ ρ ε] [Row ρ] (paginator : Paginator) (source : σ) (request : Request)
      (page : Page ρ), (paginator.paginate source request).value.1 = .ok page →
        (∀ token ∈ page.nextCursor, ∃ item ∈ page.items.getLast?,
            ∃ value ∈ Row.value? item request.sort.field,
              (Cursor.decode token).value = some ⟨request.sort.field, value⟩) ∧
          ∀ token ∈ page.previousCursor, ∃ item ∈ page.items.head?,
            ∃ value ∈ Row.value? item request.sort.field,
              (Cursor.decode token).value = some ⟨request.sort.field, value⟩ := by
  intro hall
  have hpage := (default : Paginator).pageOf_keyset unboundedTable
    (show rankRequest.offsetMode = false from rfl)
  rw [found_unboundedTable] at hpage
  obtain ⟨hnext, _⟩ := hall _ _ _ default unboundedTable.query rankRequest _ hpage
  obtain ⟨item, _, value, _, hdecode⟩ :=
    hnext (Cursor.token ⟨"rank", .float (.ofBits 0x7FF0000000000000)⟩) rfl
  rw [Cursor.value_decode, Cursor.ofToken?_token_eq] at hdecode
  cases hdecode

end Paginator

end Paging
