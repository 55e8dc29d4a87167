import Paging.Proofs.Paginator.OffsetPage
import Paging.Proofs.Paginator.Selection

/-!
What a page depends on. Where the order tells all rows apart, it does not matter how a table stores them,
in either mode. In keyset mode a token counts for the value that it is read as, up to equality in order,
and of the rows only those strictly after that value count. A token that is not read as a cursor counts
for nothing, whatever the source.
-/

namespace Paging

open Std

namespace Paginator

/-! ### The order of storage -/

section

variable {ρ : Type} [Row ρ]

/--
Two tables that store the same rows, told apart by the sort field and the tie breaker, have the same page
for any request.
-/
theorem pageOf_eq_of_perm (paginator : Paginator) (request : Request) {first second : Table ρ}
    (hperm : first.rows.Perm second.rows)
    (hdistinct : first.rows.Pairwise fun a b => SortKey.compareRows request.keys a b ≠ .eq) :
    ∃ page, paginator.pageOf first request = .ok page ∧ paginator.pageOf second request = .ok page := by
  cases hmode : request.offsetMode with
  | true =>
    have hsorted := SortKey.sort_congr_perm request.keys hperm hdistinct
    have hfirst := pageOf_offset paginator first hmode
    rw [hsorted, hperm.length_eq] at hfirst
    exact ⟨_, hfirst, pageOf_offset paginator second hmode⟩
  | false =>
    have hfound : Keyset.found request first.rows = Keyset.found request second.rows := by
      apply SortKey.sort_congr_perm request.keys (hperm.filter _)
      exact hdistinct.sublist List.filter_sublist
    have hfirst := pageOf_keyset paginator first hmode
    rw [hfound] at hfirst
    exact ⟨_, hfirst, pageOf_keyset paginator second hmode⟩

end

/-- Rows of which two have equal ranks and one has none. -/
def scatteredRows : List TypedRow :=
  [⟨0, [("id", .int 3)]⟩, ⟨1, [("id", .int 2), ("rank", .int 5)]⟩, ⟨2, [("id", .int 1), ("rank", .int 5)]⟩]

theorem pageOf_scatteredRows :
    ∃ page, (default : Paginator).pageOf ⟨scatteredRows⟩ rankRequest = .ok page ∧
      (default : Paginator).pageOf ⟨scatteredRows.reverse⟩ rankRequest = .ok page := by
  apply pageOf_eq_of_perm
  · exact (List.reverse_perm scatteredRows).symm
  · decide +kernel

end Paginator

/-! ### The boundary -/

section

variable {ρ : Type} [Row ρ]

namespace Request

variable (request : Request)

/-- Tokens of equal values reach the same rows, whatever fields they name. -/
theorem reaches_congr {first second : String} {a b : Cursor}
    (hfirst : Cursor.ofToken? first = some a) (hsecond : Cursor.ofToken? second = some b)
    (heq : compare a.value b.value = .eq) (row : ρ) :
    (request.withCursor first).Reaches row ↔ (request.withCursor second).Reaches row := by
  rw [← admits_iff_reaches, ← admits_iff_reaches, request.admits_withCursor hfirst,
    request.admits_withCursor hsecond]
  exact Eq.congr_left (RangeFilter.admits_after_congr request.sort heq _)

end Request

theorem Table.query_reached (table : Table ρ) (request : Request) :
    table.query.reached request =
      table.rows.filter fun row => request.admits (Row.value? row request.sort.field) := by
  rw [← Table.Query.filter_matching, Table.Query.matching_query]

theorem Keyset.found_eq_sort_reached (request : Request) (table : Table ρ) :
    found request table.rows = SortKey.sort request.keys (table.query.reached request) := by
  rw [table.query_reached]
  rfl

end

section

variable {σ ρ ε : Type} [Source σ ρ ε] [Row ρ]

omit [Row ρ] in
theorem Keyset.value_seek_of_rejected (source : σ) (request : Request) {token : String}
    (hdecode : (Cursor.decode token).value = none) :
    (seek source (request.withCursor token)).value = (source, false) := by
  simp only [seek, Request.withCursor, Logged.value_bind, hdecode, Logged.value_pure]

/-- A token that is not read as a cursor is as good as none. -/
theorem Keyset.value_page_of_rejected (source : σ) (request : Request) {token : String}
    (hdecode : (Cursor.decode token).value = none) (limit : Nat) (counts : Bool) :
    (page source (request.withCursor token) limit counts).value =
      (page source { request with cursor := none } limit counts).value := by
  have habsent : (seek source { request with cursor := none }).value = (source, false) := rfl
  rw [value_page, value_page, value_seek_of_rejected source request hdecode, habsent]
  rfl

end

namespace Paginator

variable {ρ : Type} [Row ρ]

/--
Two tokens that are read as equal values give the same page in keyset mode, also of two tables that differ
in rows that are not strictly after these values. A token that is not read as a cursor gives the page of
the request without a cursor.
-/
theorem pageOf_eq_of_boundary (paginator : Paginator) (request : Request) :
    (request.offsetMode = false →
      ∀ (first second : String) (a b : Cursor), (Cursor.decode first).value = some a →
        (Cursor.decode second).value = some b → compare a.value b.value = .eq →
          ∀ here there : Table ρ,
            here.query.reached (request.withCursor first) = there.query.reached (request.withCursor first) →
              ∃ page, paginator.pageOf here (request.withCursor first) = .ok page ∧
                paginator.pageOf there (request.withCursor second) = .ok page) ∧
      ∀ token, (Cursor.decode token).value = none →
        ∀ (σ ε : Type) [Source σ ρ ε] (source : σ),
          (paginator.paginate source (request.withCursor token)).value =
            (paginator.paginate source { request with cursor := none }).value := by
  constructor
  · intro hmode first second a b hfirst hsecond heq here there hrows
    rw [Cursor.value_decode] at hfirst hsecond
    have hreached : there.query.reached (request.withCursor first) =
        there.query.reached (request.withCursor second) := by
      apply List.filter_congr
      intro row _
      simp only [request.reaches_congr hfirst hsecond heq row]
    have hfound : Keyset.found (request.withCursor first) here.rows =
        Keyset.found (request.withCursor second) there.rows := by
      rw [Keyset.found_eq_sort_reached, Keyset.found_eq_sort_reached, hrows, hreached]
      rfl
    have hboundary : (request.withCursor first).boundary?.isSome =
        (request.withCursor second).boundary?.isSome := by
      rw [request.boundary?_withCursor hfirst, request.boundary?_withCursor hsecond]
      rfl
    have hpage := pageOf_keyset paginator here (show (request.withCursor first).offsetMode = false from hmode)
    exact ⟨_, hpage, (pageOf_congr paginator hmode hfound hboundary).symm.trans hpage⟩
  · intro token hdecode σ ε _ source
    rw [value_paginate, value_paginate]
    -- in offset mode the cursor is not looked at
    apply if_congr Iff.rfl rfl
    exact Keyset.value_page_of_rejected (ordered source request) request hdecode _ _

/-- Two tables that have a row of rank seven, and each a row of its own whose rank is below three. -/
def lowFirst : Table TypedRow := ⟨[⟨0, [("rank", .int 1)]⟩, ⟨1, [("rank", .int 7)]⟩]⟩

def lowLast : Table TypedRow := ⟨[⟨1, [("rank", .int 7)]⟩, ⟨2, [("rank", .int 2)]⟩]⟩

/-- It makes no difference whether the boundary is an integer or a float, and of which field. -/
theorem pageOf_after_three :
    let whole := Cursor.token ⟨"rank", .int 3⟩
    let real := Cursor.token ⟨"score", .float (.ofBits 0x4008000000000000)⟩
    ∃ page, (default : Paginator).pageOf lowFirst (rankRequest.withCursor whole) = .ok page ∧
      (default : Paginator).pageOf lowLast (rankRequest.withCursor real) = .ok page := by
  intro whole real
  have hread : Cursor.ofToken? whole = some ⟨"rank", .int 3⟩ := Cursor.ofToken?_token rfl
  have hwhole : (Cursor.decode whole).value = some ⟨"rank", .int 3⟩ := Cursor.value_decode_token rfl
  have hreal : (Cursor.decode real).value = some ⟨"score", .float (.ofBits 0x4008000000000000)⟩ :=
    Cursor.value_decode_token rfl
  have hreached : lowFirst.query.reached (rankRequest.withCursor whole) =
      lowLast.query.reached (rankRequest.withCursor whole) := by
    simp only [Table.query_reached, rankRequest.admits_withCursor hread]
    rfl
  have heq : compare (Scalar.int 3) (.float (.ofBits 0x4008000000000000)) = .eq := by decide +kernel
  exact (pageOf_eq_of_boundary default rankRequest).1 rfl whole real _ _ hwhole hreal heq lowFirst lowLast hreached

end Paginator

end Paging
