import Paging.Proofs.Paginator.PageSize
import Paging.Proofs.Paginator.Steps
import Paging.Proofs.Table.Query
import Paging.Recorder

/-!
How many rows a page can have. In keyset mode a page is cut off by itself, so its bound holds of every source,
also of one that returns more rows than it was asked for. By position a page has the rows that the source
returns, and there a query keeps the bound, since the take that is set for the page wins over all that was set
before.
-/

namespace Paging

namespace Keyset

variable {σ ρ ε : Type} [Source σ ρ ε]

/-- The source that the rows of a page are fetched from. -/
def asked (source : σ) (request : Request) (limit : Nat) (counts : Bool) : σ :=
  Source.setLimit (Source.countTolerantly (seek source request).value.1 counts).value.2 (limit + 1)

/-- A page is made of the rows fetched for it, of which it has the first, and else there is the error of the fetch. -/
theorem exists_make [Row ρ] (source : σ) (request : Request) (limit : Nat) (counts : Bool) :
    ∃ make : List ρ → Page ρ, (∀ rows, (make rows).items = rows.take limit) ∧
      (page source request limit counts).value.1 =
        (Source.fetch (asked source request limit counts)).value.1.map make := by
  rw [value_page]
  exact ⟨_, fun rows => congrArg Page.items (value_assemble request limit _ _ rows), rfl⟩

/-- A page fails with its fetch, and else has the first of the rows that are fetched for it. -/
theorem items_page [Row ρ] (source : σ) (request : Request) (limit : Nat) (counts : Bool) :
    match (Source.fetch (asked source request limit counts)).value.1 with
    | .ok rows => ∃ shown, (page source request limit counts).value.1 = .ok shown ∧
        shown.items <+: rows ∧ shown.items.length ≤ limit
    | .error error => (page source request limit counts).value.1 = .error error := by
  obtain ⟨make, hitems, hpage⟩ := exists_make source request limit counts
  rw [hpage]
  cases (Source.fetch (asked source request limit counts)).value.1 with
  | error error => rfl
  | ok rows =>
    refine ⟨make rows, rfl, ?_, ?_⟩
    · exact hitems rows ▸ List.take_prefix limit rows
    · exact hitems rows ▸ List.length_take_le limit rows

end Keyset

namespace Table.Query

variable {ρ : Type} [Row ρ]

theorem size?_setTake (query : Query ρ) (offset limit : Nat) :
    (Source.setTake (Source.setSkip query offset) limit).size? = some limit := rfl

theorem length_items_offsetPage {query : Query ρ} {offset limit : Nat} {counts : Bool} {page : Page ρ}
    (h : (offsetPage query offset limit counts).value.1 = .ok page) : page.items.length ≤ limit := by
  rw [value_offsetPage] at h
  obtain ⟨rows, hrows, rfl⟩ := exists_of_map_eq_ok h
  rw [value_countTolerantly] at hrows
  rw [eq_page_of_fetch hrows]
  exact length_page_le (query.size?_setTake offset limit)

theorem length_items_numberedPageWithin {query : Query ρ} {number limit bound : Nat} {page : NumberedPage ρ}
    (h : (numberedPageWithin query number limit bound).value.1 = .ok page) :
    page.items.length ≤ clampPageSize limit bound := by
  rw [value_numberedPageWithin] at h
  obtain ⟨⟨rows, total⟩, hrows, rfl⟩ := exists_of_map_eq_ok h
  have hpage : rows = _ := eq_page_of_fetchCounted hrows
  change rows.length ≤ _
  rw [hpage]
  exact length_page_le (query.size?_setTake _ _)

end Table.Query

namespace Paginator

/--
In keyset mode the items of a page are the first of the rows that any source returns for it, and no more than
the page size. By position a page of a query is no larger than its own page size, whatever the query was told
before. Neither size exceeds the maximum of the policy or 100.
-/
theorem length_items_le {σ ρ ε : Type} [Source σ ρ ε] [Row ρ] (paginator : Paginator) (request : Request)
    (source : σ) (query : Table.Query ρ) (number size : UInt64) :
    let bound := min paginator.policy.maxLimit.toNat 100
    let limit := request.pageSizeUnder paginator.policy
    let asked := Keyset.asked (ordered source request) request limit (request.countsUnder paginator.policy)
    limit ≤ bound ∧
      (request.offsetMode = false →
        match (Source.fetch asked).value.1 with
        | .ok rows => ∃ page, (paginator.paginate source request).value.1 = .ok page ∧
            page.items <+: rows ∧ page.items.length ≤ limit
        | .error error => (paginator.paginate source request).value.1 = .error error) ∧
      (request.offsetMode = true → ∀ page, (paginator.paginate query request).value.1 = .ok page →
        page.items.length ≤ limit) ∧
      (∀ page, (paginator.numberedPage query number size).value.1 = .ok page →
        page.items.length ≤ clampPageSize size.toNat paginator.policy.maxLimit.toNat ∧
          clampPageSize size.toNat paginator.policy.maxLimit.toNat ≤ bound) ∧
      (∀ page, (Paging.numberedPage query number size).value.1 = .ok page →
        page.items.length ≤ clampPageSize size.toNat maxPageSize) := by
  intro bound limit asked
  refine ⟨paginator.valid.clampPageSize_le _, fun hmode => ?_, fun hmode page hpage => ?_,
    fun page hpage => ⟨?_, paginator.valid.clampPageSize_le _⟩, fun page hpage => ?_⟩
  · have hpage : (paginator.paginate source request).value =
        (Keyset.page (ordered source request) request limit (request.countsUnder paginator.policy)).value := by
      simp only [value_paginate, hmode, Bool.false_eq_true, if_false, limit]
    rw [hpage]
    exact Keyset.items_page _ _ _ _
  · rw [value_paginate] at hpage
    simp only [hmode, if_true] at hpage
    exact Table.Query.length_items_offsetPage hpage
  · rw [Paginator.numberedPage, Logging.value_deliver] at hpage
    exact Table.Query.length_items_numberedPageWithin hpage
  · exact Table.Query.length_items_numberedPageWithin hpage

/-- A source that counts too few rows and returns too many of them. -/
theorem length_items_of_heedless_source :
    let recorder : Recorder :=
      { rows := [.object [("id", .ofWord 1)], .object [("id", .ofWord 2)], .object [("id", .ofWord 3)]]
        total := some 0
        ignoresLimit := true }
    let request : Request := { sort := .asc "id", limit := some 1 }
    ∃ page, ((default : Paginator).paginate recorder request).value.1 = .ok page ∧
      page.items <+: recorder.rows ∧ page.items.length ≤ 1 := by
  intro recorder request
  obtain ⟨_, hkeyset, _⟩ := length_items_le default request recorder (Table.query ⟨[]⟩) 1 1
  exact hkeyset rfl

end Paginator

end Paging
