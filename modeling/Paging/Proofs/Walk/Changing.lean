import Paging.Proofs.Walk.Advance
import Paging.Proofs.Walk.Ties

/-!
Walks along a table that changes between two requests. Whatever is inserted, removed or changed, a later
page shows values strictly after those of every earlier page, because a request goes on after a value and
not at a position. A row that is there at every request is shown exactly once by a walk that ends, as long
as no two rows are there at once with equal values.
-/

namespace Paging

open Std

variable {ρ : Type} [Row ρ]

namespace Paginator

/--
The pages of a walk that meets another table at each request. It ends with the first page that names no
next cursor, or when there is no further table.
-/
def walkAlong (paginator : Paginator) (request : Request) :
    List (Table ρ) → Except QueryError (List (Page ρ))
  | [] => .ok []
  | table :: tables => do
    let page ← paginator.pageOf table request
    match page.nextCursor with
    | none => return [page]
    | some token =>
      let later ← paginator.walkAlong (request.withCursor token) tables
      return page :: later

section

variable {paginator : Paginator} {table : Table ρ} {tables : List (Table ρ)} {request : Request}
  {page : Page ρ}

theorem walkAlong_last (hpage : paginator.pageOf table request = .ok page) (hnext : page.nextCursor = none) :
    paginator.walkAlong request (table :: tables) = .ok [page] := by
  simp only [walkAlong, hpage, bind, Except.bind, hnext, pure, Except.pure]

theorem walkAlong_next (hpage : paginator.pageOf table request = .ok page) {token : String}
    (hnext : page.nextCursor = some token) {later : List (Page ρ)}
    (hlater : paginator.walkAlong (request.withCursor token) tables = .ok later) :
    paginator.walkAlong request (table :: tables) = .ok (page :: later) := by
  simp only [walkAlong, hpage, bind, Except.bind, hnext, hlater, pure, Except.pure]

end

/-- A walk along a table that does not change is the walk of that table. -/
theorem walkAlong_replicate (paginator : Paginator) (table : Table ρ) (request : Request) (count : Nat) :
    paginator.walkAlong request (List.replicate count table) = paginator.walk table request count := by
  induction count generalizing request with
  | zero => rfl
  | succ count ih =>
    rw [List.replicate_succ, walkAlong, walk]
    refine congrArg (paginator.pageOf table request >>= ·) (funext fun page => ?_)
    cases page.nextCursor with
    | none => rfl
    | some token =>
      have hlater := ih (request.withCursor token)
      exact congrArg (· >>= fun later => .ok (page :: later)) hlater

end Paginator

/-- The pages of a walk and the tables that it met, each page with what it leaves to the pages after it. -/
inductive Trail : Request → List (Table ρ) → List (Page ρ) → Prop
  | nil {request : Request} : Trail request [] []
  | last {request : Request} {table : Table ρ} {page : Page ρ} (hpage : Advances request table.rows page)
    (hnext : page.nextCursor = none) : Trail request [table] [page]
  | next {request : Request} {table : Table ρ} {page : Page ρ} {token : String} {tables : List (Table ρ)}
    {pages : List (Page ρ)} (hpage : Advances request table.rows page)
    (hnext : page.nextCursor = some token) (hlater : Trail (request.withCursor token) tables pages) :
    Trail request (table :: tables) (page :: pages)

namespace Paginator

theorem exists_trail (paginator : Paginator) {request : Request} (hmode : request.offsetMode = false)
    {tables : List (Table ρ)}
    (hvalues : ∀ table ∈ tables, Valued request.sort.field table.rows) :
    ∃ pages, paginator.walkAlong request tables = .ok pages ∧
      Trail request (tables.take pages.length) pages := by
  induction tables generalizing request with
  | nil => exact ⟨[], rfl, .nil⟩
  | cons table tables ih =>
    obtain ⟨page, hpage, hadvances⟩ := paginator.exists_advances table hmode
      (hvalues table List.mem_cons_self)
    cases hnext : page.nextCursor with
    | none =>
      exact ⟨[page], walkAlong_last hpage hnext, .last hadvances hnext⟩
    | some token =>
      obtain ⟨pages, hpages, htrail⟩ := @ih (request.withCursor token) hmode
        fun table htable => hvalues table (List.mem_cons_of_mem _ htable)
      exact ⟨page :: pages, walkAlong_next hpage hnext hpages, .next hadvances hnext htrail⟩

end Paginator

namespace Trail

variable {request : Request} {tables : List (Table ρ)} {pages : List (Page ρ)}

theorem length_eq (h : Trail request tables pages) : tables.length = pages.length := by
  induction h with
  | nil => rfl
  | last => rfl
  | next _ _ _ ih => exact congrArg (· + 1) ih

theorem reaches (h : Trail request tables pages) :
    ∀ page ∈ pages, ∀ item ∈ page.items, request.Reaches item := by
  induction h with
  | nil => exact nofun
  | last hpage => exact List.forall_mem_singleton.mpr fun item hitem => (hpage.shown item hitem).2
  | next hpage hnext _ ih =>
    refine List.forall_mem_cons.mpr ⟨fun item hitem => (hpage.shown item hitem).2, ?_⟩
    intro page hmem item hitem
    exact hpage.reaches_of_reaches hnext (ih page hmem item hitem)

/-- What later pages show comes strictly after what earlier pages show. -/
theorem pairwise_before (h : Trail request tables pages) :
    pages.Pairwise fun earlier later => ∀ a ∈ earlier.items, ∀ b ∈ later.items, request.sort.Before a b := by
  induction h with
  | nil => exact .nil
  | last => exact List.pairwise_singleton _ _
  | next hpage hnext hlater ih =>
    refine List.pairwise_cons.mpr ⟨fun page hmem a ha b hb => ?_, ih⟩
    exact hpage.before_of_reaches hnext ha (hlater.reaches page hmem b hb)

omit [Row ρ] in
/-- A walk that does not end with a page ends with one of the pages after it. -/
theorem ends_of_cons {page : Page ρ} {token : String} (hnext : page.nextCursor = some token)
    (hends : ∃ last, (page :: pages).getLast? = some last ∧ last.nextCursor = none) :
    ∃ last, pages.getLast? = some last ∧ last.nextCursor = none := by
  obtain ⟨last, hlast, hnone⟩ := hends
  cases pages with
  | nil =>
    obtain rfl := Option.some.inj hlast
    exact absurd (hnone.symm.trans hnext) nofun
  | cons second pages => exact ⟨last, hlast, hnone⟩

/--
A value that is there at every request of a walk that ends is shown once, if the walk has not gone past it
and no two rows are there at once with equal values.
-/
theorem exists_equalTo_eq (h : Trail request tables pages)
    (hends : ∃ last, pages.getLast? = some last ∧ last.nextCursor = none)
    (hdistinct : ∀ table ∈ tables, table.rows.Pairwise fun a b => SortKey.compareBy request.sort a b ≠ .eq)
    {row : ρ} (hreaches : request.Reaches row)
    (hcopies : ∀ table ∈ tables, ∃ copy ∈ table.rows, SortKey.compareBy request.sort row copy = .eq) :
    ∃ shown, equalTo (SortKey.compareBy request.sort) row (pages.flatMap Page.items) = [shown] ∧
      ((∀ table ∈ tables, row ∈ table.rows) → shown = row) := by
  induction h with
  | nil =>
    obtain ⟨_, hlast, _⟩ := hends
    cases hlast
  | @last request table page hpage hnext =>
    obtain ⟨hdistinct, _⟩ := List.forall_mem_cons.mp hdistinct
    obtain ⟨⟨copy, hcopy, htie⟩, _⟩ := List.forall_mem_cons.mp hcopies
    have hshown := hpage.ends hnext copy hcopy (hreaches.of_compareBy_eq htie)
    refine ⟨copy, ?_, fun hrow => ?_⟩
    · rw [List.flatMap_singleton]
      exact equalTo_eq_singleton (hpage.distinct hdistinct) hshown htie
    · exact (eq_of_pairwise_ne hdistinct (hrow table List.mem_cons_self) hcopy htie).symm
  | @next request table page token tables pages hpage hnext hlater ih =>
    obtain ⟨hdistinct, hothers⟩ := List.forall_mem_cons.mp hdistinct
    obtain ⟨⟨copy, hcopy, htie⟩, hcopies⟩ := List.forall_mem_cons.mp hcopies
    have hcopyReaches := hreaches.of_compareBy_eq htie
    rw [List.flatMap_cons, equalTo_append]
    by_cases hshown : copy ∈ page.items
    · -- what later pages show comes after the row that this page shows
      have hlaterItems : equalTo (SortKey.compareBy request.sort) copy (pages.flatMap Page.items) = [] := by
        refine SortKey.equalTo_eq_nil_of_before fun item hitem => Or.inr ?_
        obtain ⟨later, hmem, hitem⟩ := List.mem_flatMap.mp hitem
        exact hpage.before_of_reaches hnext hshown (hlater.reaches later hmem item hitem)
      refine ⟨copy, ?_, fun hrow => ?_⟩
      · rw [equalTo_eq_singleton (hpage.distinct hdistinct) hshown htie, equalTo_congr htie, hlaterItems]
        rfl
      · exact (eq_of_pairwise_ne hdistinct (hrow table List.mem_cons_self) hcopy htie).symm
    · -- what this page shows comes before the row, which is left to later pages
      have hleft := hpage.reaches_of_notMem hnext hdistinct hcopy hcopyReaches hshown
      have hpageItems : equalTo (SortKey.compareBy request.sort) copy page.items = [] := by
        refine SortKey.equalTo_eq_nil_of_before fun item hitem => Or.inl ?_
        exact hpage.before_of_reaches hnext hitem hleft
      obtain ⟨shown, hitems, hsame⟩ := ih (ends_of_cons hnext hends) hothers
        (hleft.of_compareBy_eq (OrientedCmp.eq_symm htie)) hcopies
      refine ⟨shown, ?_, fun hrow => hsame (List.forall_mem_cons.mp hrow).2⟩
      rw [equalTo_congr htie, hpageItems, List.nil_append]
      exact hitems

end Trail

namespace Paginator

/--
What a walk along tables of JSON rows shows while these change. Every page shows values strictly after
those of the pages before it. If the walk ends, and no table has two rows of equal value when the walk
meets it, then every row that is on all of these tables is shown once, and no other row of its value is.
-/
theorem walkAlong_shows_once (paginator : Paginator) (request : Request)
    (tables : List (Table Json.Object))
    (hvalues : ∀ table ∈ tables, ∀ row ∈ table.rows, (Row.value? row request.sort.field).isSome = true) :
    ∃ pages, paginator.walkAlong request.fromStart tables = .ok pages ∧ pages.length ≤ tables.length ∧
      (pages.Pairwise fun earlier later =>
        ∀ a ∈ earlier.items, ∀ b ∈ later.items, request.sort.Before a b) ∧
      let met := tables.take pages.length
      (∃ page, pages.getLast? = some page ∧ page.nextCursor = none) →
        (∀ table ∈ met, table.rows.Pairwise fun a b => SortKey.compareBy request.sort a b ≠ .eq) →
          ∀ row, (∀ table ∈ met, row ∈ table.rows) →
            equalTo (SortKey.compareBy request.sort) row (pages.flatMap Page.items) = [row] := by
  obtain ⟨pages, hpages, htrail⟩ := exists_trail paginator (show request.fromStart.offsetMode = false from rfl)
    fun table htable => valued_of_isSome (hvalues table htable)
  refine ⟨pages, hpages, ?_, htrail.pairwise_before, fun hends hdistinct row hrow => ?_⟩
  · rw [← htrail.length_eq]
    exact List.length_take_le' _ _
  · have hcopies : ∀ table ∈ tables.take pages.length, ∃ copy ∈ table.rows,
        SortKey.compareBy request.sort row copy = .eq :=
      fun table htable => ⟨row, hrow table htable, ReflCmp.compare_self⟩
    obtain ⟨shown, hshown, hsame⟩ := htrail.exists_equalTo_eq hends hdistinct
      (request.reaches_fromStart row) hcopies
    rw [hsame hrow] at hshown
    exact hshown

/-- Two rows, the first of which is then replaced by one that comes before it. -/
def changingTables : List (Table Json.Object) :=
  [⟨[rankedRow 1 5, rankedRow 2 7]⟩, ⟨[rankedRow 3 4, rankedRow 2 7]⟩]

theorem walkAlong_changingTables :
    ∃ first last, (default : Paginator).walkAlong rankRequest.fromStart changingTables = .ok [first, last] ∧
      last.nextCursor = none := by
  have hfirst : Keyset.found rankRequest.fromStart [rankedRow 1 5, rankedRow 2 7] =
      [rankedRow 1 5, rankedRow 2 7] := by
    rw [Keyset.found_of_pairwise _ (by decide +kernel)]
    rfl
  have hlast : Keyset.found (rankRequest.fromStart.goOn (.int 5)) [rankedRow 3 4, rankedRow 2 7] =
      [rankedRow 2 7] := by
    rw [Keyset.found_of_pairwise _ (by decide +kernel)]
    simp only [Request.admits_goOn _ (show (Scalar.int 5).isFinite = true from rfl)]
    rfl
  have hfirstPage := (default : Paginator).pageOf_keyset ⟨[rankedRow 1 5, rankedRow 2 7]⟩
    (show rankRequest.fromStart.offsetMode = false from rfl)
  have hlastPage := (default : Paginator).pageOf_keyset ⟨[rankedRow 3 4, rankedRow 2 7]⟩
    (show (rankRequest.fromStart.goOn (.int 5)).offsetMode = false from rfl)
  rw [hfirst] at hfirstPage
  rw [hlast] at hlastPage
  exact ⟨_, _, walkAlong_next hfirstPage rfl (walkAlong_last hlastPage rfl), rfl⟩

theorem shows_once_changingTables :
    ∃ pages, (default : Paginator).walkAlong rankRequest.fromStart changingTables = .ok pages ∧
      equalTo (SortKey.compareBy rankRequest.sort) (rankedRow 2 7) (pages.flatMap Page.items) =
        [rankedRow 2 7] := by
  obtain ⟨pages, hpages, _, _, honce⟩ :=
    walkAlong_shows_once default rankRequest changingTables (by decide +kernel)
  obtain ⟨first, last, hwalk, hends⟩ := walkAlong_changingTables
  obtain rfl : pages = [first, last] := Except.ok.inj (hpages.symm.trans hwalk)
  have hdistinct : ∀ table ∈ changingTables, table.rows.Pairwise fun a b =>
      SortKey.compareBy rankRequest.sort a b ≠ .eq := by
    decide +kernel
  have hkept : ∀ table ∈ changingTables, rankedRow 2 7 ∈ table.rows := by
    simp [changingTables]
  exact ⟨_, hpages, honce ⟨last, rfl, hends⟩ hdistinct _ hkept⟩

end Paginator

end Paging
