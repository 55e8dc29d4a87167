import Paging.Paginator.Basic

/-!
The steps of a paginator, for any source. Diagnostics and where they go have no part in what a run
returns, so the value of a run is that of its steps, one after the other.
-/

namespace Paging

theorem Logging.value_deliver {α : Type} (logging : Logging) (action : Logged α) :
    (logging.deliver action).value = action.value := by
  cases logging <;> rfl

theorem exists_of_map_eq_ok {ε α β : Type} {result : Except ε α} {f : α → β} {b : β}
    (h : result.map f = .ok b) : ∃ a, result = .ok a ∧ f a = b := by
  cases result with
  | error => cases h
  | ok a => exact ⟨a, rfl, Except.ok.inj h⟩

variable {σ ρ ε : Type} [Source σ ρ ε] [Row ρ]

namespace Keyset

/-- The token of a row that has a value under a field. -/
def tokenOf? (field : String) (row : Option ρ) : Option String :=
  row.bind fun row => (Row.value? row field).map fun value => Cursor.token ⟨field, value⟩

theorem tokenOf?_eq_some_iff {field : String} {row : Option ρ} {token : String} :
    tokenOf? field row = some token ↔
      ∃ item ∈ row, ∃ value ∈ Row.value? item field, token = Cursor.token ⟨field, value⟩ := by
  cases row with
  | none => simp [tokenOf?]
  | some item => simp [tokenOf?, Option.map_eq_some_iff, @eq_comm _ token]

theorem value_neighbourToken (field : String) (hasNeighbour : Bool) (row : Option ρ) :
    (neighbourToken field hasNeighbour row).value = if hasNeighbour then tokenOf? field row else none := by
  cases hasNeighbour with
  | false => rfl
  | true =>
    cases row with
    | none => rfl
    | some row =>
      simp only [neighbourToken, boundaryToken, tokenOf?, Option.bind_some, if_true]
      cases Row.value? row field <;> rfl

/-- The page that is made of the rows fetched for it. -/
theorem value_assemble (request : Request) (limit : Nat) (hasPrevious : Bool) (total : Option Nat)
    (fetched : List ρ) :
    (assemble request limit hasPrevious total fetched).value =
      let hasNext := decide (limit < fetched.length) || total.any fun total => decide (limit < total)
      { items := fetched.take limit
        hasNext := hasNext
        hasPrevious := hasPrevious
        nextCursor := if hasNext then tokenOf? request.sort.field (fetched.take limit).getLast? else none
        previousCursor :=
          if hasPrevious then tokenOf? request.sort.field (fetched.take limit).head? else none
        totalCount := total } := by
  simp only [assemble, Logged.value_bind, Logged.value_pure, value_neighbourToken]

/-- A page in keyset mode is made of what the source fetches once it was restricted and counted. -/
theorem value_page (source : σ) (request : Request) (limit : Nat) (counts : Bool) :
    (page source request limit counts).value =
      let sought := (seek source request).value
      let counted := (Source.countTolerantly sought.1 counts).value
      let fetched := (Source.fetch (Source.setLimit counted.2 (limit + 1))).value
      (fetched.1.map fun rows => (assemble request limit sought.2 counted.1 rows).value, fetched.2) := by
  simp only [page, Logged.value_bind]
  split
  · rename_i hfetched
    rw [hfetched]
    rfl
  · rename_i hfetched
    rw [hfetched]
    rfl

end Keyset

omit [Row ρ] in
/-- A page in offset mode is made of what the source fetches once it was counted. -/
theorem value_offsetPage (source : σ) (offset limit : Nat) (counts : Bool) :
    (offsetPage source offset limit counts).value =
      let counted := (Source.countTolerantly (Source.setTake (Source.setSkip source offset) limit) counts).value
      let fetched := (Source.fetch counted.2).value
      (fetched.1.map fun rows =>
        { items := rows
          hasNext := counted.1.any fun total => decide (offset + rows.length < total)
          hasPrevious := decide (0 < offset)
          totalCount := counted.1 }, fetched.2) := by
  simp only [offsetPage, Logged.value_bind]
  split
  · rename_i hfetched
    rw [hfetched]
    rfl
  · rename_i hfetched
    rw [hfetched]
    rfl

omit [Row ρ] in
/-- A numbered page is made of what the source fetches together with its count. -/
theorem value_numberedPageWithin (source : σ) (page limit bound : Nat) :
    (numberedPageWithin source page limit bound).value =
      let page := max page 1
      let size := clampPageSize limit bound
      let offset := pageOffset page size
      let fetched := (Source.fetchCounted (Source.setTake (Source.setSkip source offset) size)).value
      (fetched.1.map fun counted =>
        NumberedPage.of counted.1 (counted.2.getD (offset + counted.1.length)) page size, fetched.2) := by
  simp only [numberedPageWithin, Logged.value_bind]
  split
  · rename_i hfetched
    rw [hfetched]
    rfl
  · rename_i items total _ hfetched
    rw [hfetched]
    cases total <;> rfl

namespace Paginator

theorem value_ofPolicy {policy : Policy} (hvalid : policy.Valid) :
    (ofPolicy policy).value = .ok { policy := policy, valid := hvalid } := by
  unfold ofPolicy
  split
  · rename_i hfault
    rw [(Policy.fault?_eq_none_iff policy).mpr hvalid] at hfault
    cases hfault
  · rfl

theorem value_paginate (paginator : Paginator) (source : σ) (request : Request) :
    (paginator.paginate source request).value =
      let source := ordered source request
      let limit := request.pageSizeUnder paginator.policy
      let counts := request.countsUnder paginator.policy
      if request.offsetMode then (offsetPage source request.skipped limit counts).value
      else (Keyset.page source request limit counts).value := by
  rw [paginate, Logging.value_deliver]
  simp only [run, Logged.value_bind]
  split <;> rfl

/-- The page of a source in the order that it has, in the mode of a request. -/
def pageInOrder (paginator : Paginator) (source : σ) (request : Request) : Except ε (Page ρ) :=
  let limit := request.pageSizeUnder paginator.policy
  let counts := request.countsUnder paginator.policy
  if request.offsetMode then (offsetPage source request.skipped limit counts).value.1
  else (Keyset.page source request limit counts).value.1

/--
The source whose rows a page of it counts, if any are counted. In offset mode its bounds are set by then, and in
keyset mode it is restricted.
-/
def counting (paginator : Paginator) (source : σ) (request : Request) : σ :=
  if request.offsetMode then
    Source.setTake (Source.setSkip source request.skipped) (request.pageSizeUnder paginator.policy)
  else (Keyset.seek source request).value.1

/-- To take a page is to order the source and to take the page of it in that order. -/
theorem paginate_eq_pageInOrder (paginator : Paginator) (source : σ) (request : Request) :
    (paginator.paginate source request).value.1 = paginator.pageInOrder (ordered source request) request := by
  rw [value_paginate, pageInOrder]
  exact apply_ite Prod.fst _ _ _

end Paginator

end Paging
