import Paging.Proofs.Filter.Boundary
import Paging.Proofs.Paginator.Steps
import Paging.Proofs.Table.Query
import Paging.Walk

/-!
The page of a query in keyset mode, as a value of the request and the rows. It is cut from the rows
beyond the boundary in their order. A table counts what passes its filters, so the count and the row
fetched in addition agree on whether another page follows.
-/

namespace Paging

variable {ρ : Type} [Row ρ]

namespace Request

/-- The value that a request goes on after, if its cursor is a token. -/
def boundary? (request : Request) : Option Scalar :=
  request.cursor.bind fun token => (Cursor.ofToken? token).map (·.value)

/-- Whether a value of the sort field lies beyond the boundary of a request. -/
def admits (request : Request) (value : Option Scalar) : Bool :=
  match request.boundary? with
  | none => true
  | some boundary => (RangeFilter.after request.sort boundary).admits value

/--
A row lies strictly after the value that a request goes on after, in the direction of its sort key. Where
there is no such value, every row does.
-/
def Reaches (request : Request) (row : ρ) : Prop :=
  ∀ boundary ∈ request.boundary?, ∃ value ∈ Row.value? row request.sort.field,
    request.sort.direction.apply (compare boundary value) = .lt

theorem admits_iff_reaches (request : Request) (row : ρ) :
    request.admits (Row.value? row request.sort.field) = true ↔ request.Reaches row := by
  unfold admits Reaches
  cases request.boundary? with
  | none => simp
  | some boundary => simp [RangeFilter.admits_after_iff]

instance (request : Request) (row : ρ) : Decidable (request.Reaches row) :=
  decidable_of_iff _ (request.admits_iff_reaches row)

theorem boundary?_withCursor (request : Request) {token : String} {cursor : Cursor}
    (hread : Cursor.ofToken? token = some cursor) : (request.withCursor token).boundary? = some cursor.value := by
  rw [boundary?, withCursor, Option.bind_some, hread]
  rfl

/-- Of a token that is read as a cursor, the value alone says what lies beyond the boundary. -/
theorem admits_withCursor (request : Request) {token : String} {cursor : Cursor}
    (hread : Cursor.ofToken? token = some cursor) (value : Option Scalar) :
    (request.withCursor token).admits value = (RangeFilter.after request.sort cursor.value).admits value := by
  rw [admits, request.boundary?_withCursor hread]
  rfl

end Request

namespace Table.Query

/-- The query for what comes after the boundary of a request, in its order. -/
def sought (query : Query ρ) (request : Request) : Query ρ :=
  match request.boundary? with
  | none => { query with keys := request.keys }
  | some boundary => { query with keys := request.keys }.restrict (RangeFilter.after request.sort boundary)

variable (query : Query ρ) (request : Request)

omit [Row ρ] in
theorem keys_sought : (query.sought request).keys = request.keys := by
  unfold sought
  cases request.boundary? <;> rfl

omit [Row ρ] in
theorem failure_sought : (query.sought request).failure = query.failure := by
  unfold sought
  cases request.boundary? <;> rfl

omit [Row ρ] in
theorem counts_sought : (query.sought request).Counts ↔ query.Counts := by
  unfold sought
  cases request.boundary? <;> rfl

omit [Row ρ] in
variable {query} in
theorem Unbounded.sought (h : query.Unbounded) : (query.sought request).Unbounded := by
  unfold Query.sought
  cases request.boundary? <;> exact ⟨h.skip, h.take, h.offset⟩

theorem matching_sought :
    (query.sought request).matching =
      query.matching.filter fun row => request.admits (Row.value? row request.sort.field) := by
  unfold sought
  cases hboundary : request.boundary? with
  | none =>
    have hall (row : ρ) : request.admits (Row.value? row request.sort.field) = true := by
      rw [Request.admits, hboundary]
    rw [List.filter_eq_self.mpr fun row _ => hall row]
    rfl
  | some boundary =>
    have hkeeps : (fun row : ρ => request.admits (Row.value? row request.sort.field)) =
        (RangeFilter.after request.sort boundary).keeps := by
      funext row
      rw [Request.admits, hboundary]
      rfl
    rw [matching_restrict, hkeeps]
    rfl

end Table.Query

namespace Keyset

omit [Row ρ] in
/-- Whatever its token is, a request restricts a source at most to what comes after its boundary. -/
theorem value_seek {σ ε : Type} [Source σ ρ ε] (source : σ) (request : Request) :
    (seek source request).value =
      match request.boundary? with
      | none => (source, false)
      | some boundary => (Source.restrict source (RangeFilter.after request.sort boundary), true) := by
  unfold seek Request.boundary?
  cases request.cursor with
  | none => rfl
  | some token =>
    simp only [Option.bind_some, Cursor.decode]
    cases Cursor.ofToken? token with
    | none => rfl
    | some cursor =>
      simp only [Logged.value_bind, Logged.value_pure, Option.map_some]
      split <;> rfl

/-- The rows beyond the boundary of a request, in order. -/
def found (request : Request) (rows : List ρ) : List ρ :=
  SortKey.sort request.keys (rows.filter fun row => request.admits (Row.value? row request.sort.field))

/-- Of rows that are stored in order, those beyond the boundary are found as they are. -/
theorem found_of_pairwise (request : Request) {rows : List ρ}
    (h : rows.Pairwise fun a b => (SortKey.compareRows request.keys a b).isLE = true) :
    found request rows = rows.filter fun row => request.admits (Row.value? row request.sort.field) := by
  rw [found, ← SortKey.filter_sort, SortKey.sort_of_pairwise _ h]

end Keyset

namespace Paginator

theorem value_seek (query : Table.Query ρ) (request : Request) :
    (Keyset.seek (ordered query request) request).value =
      (query.sought request, request.boundary?.isSome) := by
  rw [ordered_query, Keyset.value_seek, Table.Query.sought]
  cases request.boundary? <;> rfl

/-- The page of a query in keyset mode. -/
theorem paginate_keyset (paginator : Paginator) {query : Table.Query ρ} {request : Request}
    (hquery : query.Unbounded) (hfailure : query.failure ≠ some .execute)
    (hmode : request.offsetMode = false) :
    (paginator.paginate query request).value.1 =
      let limit := request.pageSizeUnder paginator.policy
      let found := Keyset.found request query.matching
      let hasNext := decide (limit < found.length)
      .ok
        { items := found.take limit
          hasNext := hasNext
          hasPrevious := request.boundary?.isSome
          nextCursor := if hasNext then Keyset.tokenOf? request.sort.field (found.take limit).getLast? else none
          previousCursor :=
            if request.boundary?.isSome then Keyset.tokenOf? request.sort.field (found.take limit).head?
            else none
          totalCount :=
            if request.countsUnder paginator.policy = true ∧ query.Counts then some found.length else none } := by
  have hpage (size : Nat) :
      ((query.sought request).withLimit size).page = (Keyset.found request query.matching).take size := by
    rw [Table.Query.page_withLimit (hquery.sought request), query.matching_sought, query.keys_sought,
      Keyset.found]
  have hlength : (query.sought request).matching.length = (Keyset.found request query.matching).length := by
    rw [query.matching_sought, Keyset.found, SortKey.length_sort]
  generalize hlimit : request.pageSizeUnder paginator.policy = limit
  generalize Keyset.found request query.matching = found at *
  have hfetch : (Source.fetch (Source.setLimit (query.sought request) (limit + 1))).value =
      (.ok (found.take (limit + 1)), (query.sought request).withLimit (limit + 1)) := by
    rw [← hpage]
    exact Table.Query.value_fetch fun h => hfailure (query.failure_sought request ▸ h)
  rw [value_paginate]
  simp only [hmode, Bool.false_eq_true, if_false, Keyset.value_page, value_seek,
    Table.Query.value_countTolerantly, query.counts_sought, hlength, hlimit, hfetch,
    Keyset.value_assemble, Except.map]
  have htake : (found.take (limit + 1)).take limit = found.take limit := by
    rw [List.take_take, Nat.min_eq_left (Nat.le_succ limit)]
  have hmore : decide (limit < (found.take (limit + 1)).length) = decide (limit < found.length) := by
    rw [List.length_take]
    exact decide_eq_decide.mpr (by omega)
  -- the count is that of the rows found, so it adds nothing to the row fetched in addition
  have hnext : (decide (limit < (found.take (limit + 1)).length) ||
      Option.any (fun total => decide (limit < total))
        (if request.countsUnder paginator.policy = true ∧ query.Counts then some found.length else none)) =
      decide (limit < found.length) := by
    rw [hmore]
    split <;> simp
  rw [hnext, htake]

/-- The page of a request in keyset mode. -/
theorem pageOf_keyset (paginator : Paginator) (table : Table ρ) {request : Request}
    (hmode : request.offsetMode = false) :
    paginator.pageOf table request =
      let limit := request.pageSizeUnder paginator.policy
      let found := Keyset.found request table.rows
      let hasNext := decide (limit < found.length)
      .ok
        { items := found.take limit
          hasNext := hasNext
          hasPrevious := request.boundary?.isSome
          nextCursor := if hasNext then Keyset.tokenOf? request.sort.field (found.take limit).getLast? else none
          previousCursor :=
            if request.boundary?.isSome then Keyset.tokenOf? request.sort.field (found.take limit).head?
            else none
          totalCount := if request.countsUnder paginator.policy then some found.length else none } := by
  have hpage := paginator.paginate_keyset (Table.Query.unbounded_query table) nofun hmode
  simp only [Table.Query.matching_query, Table.Query.counts_query, and_true] at hpage
  exact hpage

/--
Of its cursor and of the rows of the table, a page in keyset mode depends on no more than the rows that
are found and on whether there is a boundary.
-/
theorem pageOf_congr (paginator : Paginator) {here there : Table ρ} {request : Request}
    (hmode : request.offsetMode = false) {first second : Option String}
    (hfound : Keyset.found { request with cursor := first } here.rows =
      Keyset.found { request with cursor := second } there.rows)
    (hboundary : { request with cursor := first }.boundary?.isSome =
      { request with cursor := second }.boundary?.isSome) :
    paginator.pageOf here { request with cursor := first } =
      paginator.pageOf there { request with cursor := second } := by
  have hfirst : { request with cursor := first }.offsetMode = false := hmode
  have hsecond : { request with cursor := second }.offsetMode = false := hmode
  rw [pageOf_keyset paginator here hfirst, pageOf_keyset paginator there hsecond, hfound, hboundary]
  rfl

end Paginator

end Paging
