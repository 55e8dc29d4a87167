import Paging.Proofs.Cursor.RoundTrip
import Paging.Proofs.Paginator.KeysetPage
import Paging.Proofs.Paginator.PageSize
import Paging.Proofs.Walk.Visits

/-!
The exact outcome of a walk in keyset mode: how many pages it has, which rows they show and in which
order, and which rows it leaves out. A page after the first is cut from what lies beyond the last row of
the page before it, so a walk goes through the stable order of the rows and passes over those that tie
with the last row of a page.
-/

namespace Paging

variable {ρ : Type} [Row ρ]

namespace Request

/-- A request for the first page in keyset mode. -/
def fromStart (request : Request) : Request := { request with cursor := none, offsetMode := false }

variable (request : Request) (rows : List ρ)

/-- The value of the row at a position under the sort field of a request. -/
def valueAt? (i : Fin rows.length) : Option Scalar := Row.value? (rows.get i) request.sort.field

/-- The positions of the rows beyond the boundary of a request, in order. -/
def remaining : List (Fin rows.length) :=
  (SortKey.positions request.keys rows).filter fun i => request.admits (request.valueAt? rows i)

theorem found_eq : Keyset.found request rows = (request.remaining rows).map rows.get :=
  SortKey.sort_filter request.keys rows fun row => request.admits (Row.value? row request.sort.field)

theorem remaining_fromStart :
    request.fromStart.remaining rows = SortKey.positions request.keys rows := by
  unfold remaining
  exact List.filter_eq_self.mpr fun i _ => rfl

theorem pairwise_remaining :
    (request.remaining rows).Pairwise (SortKey.Precedes request.keys rows) :=
  (SortKey.pairwise_positions request.keys rows).sublist List.filter_sublist

end Request

namespace SortKey

variable (keys : List SortKey) (rows : List ρ)

theorem precedes_asymm (i j : Fin rows.length) (hij : Precedes keys rows i j) : ¬Precedes keys rows j i :=
  fun hji => not_stablyBefore_both _ hij hji

/-- What comes before another row does not compare greater by the first key. -/
theorem isLE_of_precedes {request : Request} {i j : Fin rows.length}
    (h : Precedes request.keys rows i j) :
    (request.sort.direction.apply
      (compareValues (request.valueAt? rows i) (request.valueAt? rows j))).isLE = true := by
  have hle : (compareRows request.keys (rows.get i) (rows.get j)).isLE = true := by
    rcases h with h | ⟨h, _⟩
    · exact congrArg Ordering.isLE h
    · exact congrArg Ordering.isLE h
  exact request.isLE_compareBy_of_isLE hle

end SortKey

/-! ### One page further -/

namespace Request

variable (request : Request) (rows : List ρ)

/-- The request for what comes after a value. -/
def goOn (boundary : Scalar) : Request := request.withCursor (Cursor.token ⟨request.sort.field, boundary⟩)

theorem boundary?_goOn {boundary : Scalar} (hfinite : boundary.isFinite = true) :
    (request.goOn boundary).boundary? = some boundary :=
  request.boundary?_withCursor (Cursor.ofToken?_token hfinite)

theorem admits_goOn {boundary : Scalar} (hfinite : boundary.isFinite = true) (value : Option Scalar) :
    (request.goOn boundary).admits value = (RangeFilter.after request.sort boundary).admits value :=
  request.admits_withCursor (Cursor.ofToken?_token hfinite) value

/-- What is beyond a value that a request admits is admitted by it. -/
theorem admits_of_beyond {boundary : Scalar} {value : Option Scalar}
    (hboundary : request.admits (some boundary) = true)
    (hvalue : (RangeFilter.after request.sort boundary).admits value = true) : request.admits value = true := by
  unfold admits at *
  split
  · rfl
  · rename_i previous hprevious
    rw [hprevious] at hboundary
    exact RangeFilter.admits_after_trans hboundary hvalue

/-- What remains after a value that a request admits is what remained, beyond that value. -/
theorem remaining_goOn_eq_beyond {boundary : Scalar} (hfinite : boundary.isFinite = true)
    (hboundary : request.admits (some boundary) = true) :
    (request.goOn boundary).remaining rows =
      beyond request.sort (request.valueAt? rows) boundary (request.remaining rows) := by
  rw [remaining, remaining, beyond, List.filter_filter]
  apply List.filter_congr
  intro i _
  have hgoOn := request.admits_goOn hfinite (request.valueAt? rows i)
  change (request.goOn boundary).admits (request.valueAt? rows i) = _
  rw [hgoOn]
  cases hbeyond : (RangeFilter.after request.sort boundary).admits (request.valueAt? rows i) with
  | false => rfl
  | true =>
    rw [request.admits_of_beyond hboundary hbeyond]
    rfl

/-- What remains after a page is what remained after its rows, beyond the value of the last one. -/
theorem remaining_goOn {limit : Nat} {boundary : Scalar} (hfinite : boundary.isFinite = true)
    (hboundary : ((request.remaining rows).take limit).getLast?.bind (request.valueAt? rows) =
      some boundary) :
    (request.goOn boundary).remaining rows =
      beyond request.sort (request.valueAt? rows) boundary ((request.remaining rows).drop limit) := by
  obtain ⟨j, hlast, hvalue⟩ := Visits.exists_getLast?_of_bind hboundary
  have hadmits : request.admits (some boundary) = true := by
    have hmem : j ∈ request.remaining rows :=
      (List.take_sublist limit _).subset (List.mem_of_getLast? hlast)
    exact hvalue ▸ (List.mem_filter.mp hmem).2
  have hpage := (request.pairwise_remaining rows).sublist (List.take_sublist limit _)
  have hshown : beyond request.sort (request.valueAt? rows) boundary
      ((request.remaining rows).take limit) = [] :=
    Visits.beyond_eq_nil hpage (fun _ _ => SortKey.isLE_of_precedes rows) hboundary
  rw [request.remaining_goOn_eq_beyond rows hfinite hadmits]
  conv_lhs => rw [← List.take_append_drop limit (request.remaining rows)]
  rw [beyond, List.filter_append]
  exact (congrArg (· ++ _) hshown).trans (List.nil_append _)

theorem length_remaining_goOn_lt {limit : Nat} (hlimit : 0 < limit) {boundary : Scalar}
    (hfinite : boundary.isFinite = true) (hmore : limit < (request.remaining rows).length)
    (hboundary : ((request.remaining rows).take limit).getLast?.bind (request.valueAt? rows) =
      some boundary) :
    ((request.goOn boundary).remaining rows).length < (request.remaining rows).length := by
  have hle : (beyond request.sort (request.valueAt? rows) boundary
      ((request.remaining rows).drop limit)).length ≤ ((request.remaining rows).drop limit).length :=
    (beyond_sublist boundary _).length_le
  rw [List.length_drop] at hle
  rw [request.remaining_goOn rows hfinite hboundary]
  omega

end Request

namespace Paginator

variable (paginator : Paginator) (table : Table ρ)

/-- The items of a page, and where the next one starts. -/
theorem exists_pageOf {request : Request} (hmode : request.offsetMode = false) :
    let limit := request.pageSizeUnder paginator.policy
    let shown := (request.remaining table.rows).take limit
    ∃ page, paginator.pageOf table request = .ok page ∧ page.items = shown.map table.rows.get ∧
      page.nextCursor =
        if limit < (request.remaining table.rows).length then
          (shown.getLast?.bind (request.valueAt? table.rows)).map fun boundary =>
            Cursor.token ⟨request.sort.field, boundary⟩
        else none := by
  refine ⟨_, pageOf_keyset paginator table hmode, ?_, ?_⟩
  · rw [request.found_eq, List.map_take]
  · rw [request.found_eq, List.length_map, ← List.map_take, List.getLast?_map, Keyset.tokenOf?]
    simp only [decide_eq_true_eq]
    cases ((request.remaining table.rows).take (request.pageSizeUnder paginator.policy)).getLast? <;> rfl

theorem walk_last {request : Request} {page : Page ρ} (hpage : paginator.pageOf table request = .ok page)
    (hnext : page.nextCursor = none) (count : Nat) :
    paginator.walk table request (count + 1) = .ok [page] := by
  simp only [walk, hpage, bind, Except.bind, hnext, pure, Except.pure]

theorem walk_next {request : Request} {page : Page ρ} (hpage : paginator.pageOf table request = .ok page)
    {token : String} (hnext : page.nextCursor = some token) {count : Nat} {later : List (Page ρ)}
    (hlater : paginator.walk table (request.withCursor token) count = .ok later) :
    paginator.walk table request (count + 1) = .ok (page :: later) := by
  simp only [walk, hpage, bind, Except.bind, hnext, hlater, pure, Except.pure]

/-- A walk that ends with its first page ends so however many more pages it is allowed. -/
theorem walk_eq_of_last {request : Request} {page : Page ρ} (hpage : paginator.pageOf table request = .ok page)
    (hnext : page.nextCursor = none) (count : Nat) (hcount : [page].length ≤ count) :
    paginator.walk table request count = .ok [page] := by
  obtain ⟨count, rfl⟩ := Nat.exists_eq_add_of_le' hcount
  exact paginator.walk_last table hpage hnext count

/-- Any other walk does if what follows its first page does. -/
theorem walk_eq_of_next {request : Request} {page : Page ρ} (hpage : paginator.pageOf table request = .ok page)
    {token : String} (hnext : page.nextCursor = some token) {later : List (Page ρ)}
    (hlater : ∀ count, later.length ≤ count →
      paginator.walk table (request.withCursor token) count = .ok later)
    (count : Nat) (hcount : (page :: later).length ≤ count) :
    paginator.walk table request count = .ok (page :: later) := by
  obtain ⟨count, rfl⟩ := Nat.exists_eq_add_of_le' (Nat.le_trans (Nat.succ_pos later.length) hcount)
  exact paginator.walk_next table hpage hnext (hlater count (Nat.le_of_succ_le_succ hcount))

/-- The pages of the walk that starts with a request, and the positions of the rows on each of them. -/
structure WalksFrom (request : Request) (pages : List (Page ρ))
    (visits : List (List (Fin table.rows.length))) : Prop where
  shows : Visits (request.pageSizeUnder paginator.policy) request.sort (request.valueAt? table.rows)
    (request.remaining table.rows) visits
  items_eq : pages.map Page.items = visits.map (·.map table.rows.get)
  ends : ∃ page, pages.getLast? = some page ∧ page.nextCursor = none
  walk_eq : ∀ count, pages.length ≤ count → paginator.walk table request count = .ok pages

variable {request : Request}

/-- A walk ends with a page that has all that remains, or whose last row has no value. -/
theorem exists_walksFrom_last (hmode : request.offsetMode = false)
    (hend : request.pageSizeUnder paginator.policy < (request.remaining table.rows).length →
      ((request.remaining table.rows).take (request.pageSizeUnder paginator.policy)).getLast?.bind
        (request.valueAt? table.rows) = none) :
    ∃ pages visits, WalksFrom paginator table request pages visits := by
  obtain ⟨page, hpage, hitems, hnext⟩ := paginator.exists_pageOf table hmode
  have hnone : page.nextCursor = none := by
    rw [hnext]
    split
    · rename_i hmore
      rw [hend hmore]
      rfl
    · rfl
  refine ⟨[page], _, .last hend, ?_, ⟨page, rfl, hnone⟩, paginator.walk_eq_of_last table hpage hnone⟩
  rw [List.map_singleton, hitems]
  rfl

/-- Any other page is followed by the walk that goes on after the value of its last row. -/
theorem exists_walksFrom_next (hmode : request.offsetMode = false) {boundary : Scalar}
    (hfinite : boundary.isFinite = true)
    (hmore : request.pageSizeUnder paginator.policy < (request.remaining table.rows).length)
    (hboundary : ((request.remaining table.rows).take (request.pageSizeUnder paginator.policy)).getLast?.bind
      (request.valueAt? table.rows) = some boundary)
    {later : List (Page ρ)} {visits : List (List (Fin table.rows.length))}
    (hlater : WalksFrom paginator table (request.goOn boundary) later visits) :
    ∃ pages visits, WalksFrom paginator table request pages visits := by
  obtain ⟨page, hpage, hitems, hnext⟩ := paginator.exists_pageOf table hmode
  have htoken : page.nextCursor = some (Cursor.token ⟨request.sort.field, boundary⟩) := by
    rw [hnext, if_pos hmore, hboundary]
    rfl
  have hvisits := hlater.shows
  rw [request.remaining_goOn table.rows hfinite hboundary] at hvisits
  obtain ⟨last, hlast, hnone⟩ := hlater.ends
  refine ⟨page :: later, _, .next hmore hboundary hvisits, ?_, ⟨last, ?_, hnone⟩,
    paginator.walk_eq_of_next table hpage htoken hlater.walk_eq⟩
  · rw [List.map_cons, List.map_cons, hitems, hlater.items_eq]
  · rw [List.getLast?_cons, hlast]
    rfl

/-- Every walk ends, because each page leaves fewer rows to the pages after it. -/
theorem exists_walksFrom (hmode : request.offsetMode = false)
    (hfinite : ∀ i boundary, request.valueAt? table.rows i = some boundary → boundary.isFinite = true) :
    ∃ pages visits, WalksFrom paginator table request pages visits := by
  induction hlength : (request.remaining table.rows).length using Nat.strongRecOn generalizing request with
  | ind length ih =>
    by_cases hend : request.pageSizeUnder paginator.policy < (request.remaining table.rows).length →
        ((request.remaining table.rows).take (request.pageSizeUnder paginator.policy)).getLast?.bind
          (request.valueAt? table.rows) = none
    · exact exists_walksFrom_last paginator table hmode hend
    · rw [Classical.not_imp] at hend
      obtain ⟨hmore, hsome⟩ := hend
      obtain ⟨boundary, hboundary⟩ := Option.ne_none_iff_exists'.mp hsome
      obtain ⟨j, _, hvalue⟩ := Visits.exists_getLast?_of_bind hboundary
      have hless := request.length_remaining_goOn_lt table.rows
        (request.pageSizeUnder_pos paginator.policy) (hfinite j boundary hvalue) hmore hboundary
      rw [hlength] at hless
      obtain ⟨later, visits, hlater⟩ := @ih _ hless (request.goOn boundary) hmode hfinite rfl
      exact exists_walksFrom_next paginator table hmode (hfinite j boundary hvalue) hmore hboundary hlater

theorem isFinite_of_value? {row : Json.Object} {field : String} {value : Scalar}
    (h : Row.value? row field = some value) : value.isFinite = true := by
  obtain ⟨json, _, hjson⟩ := Option.bind_eq_some_iff.mp h
  exact Scalar.isFinite_of_ofJson? hjson

/--
The pages of a walk from the start of a table, which the walk takes however many more it is allowed, and
the positions of the rows on each of them.
-/
structure Walked (request : Request) (pages : List (Page ρ)) (visits : List (List (Fin table.rows.length))) :
    Prop where
  walk_eq : ∀ count, table.rows.length / request.pageSizeUnder paginator.policy + 1 ≤ count →
    paginator.walk table request.fromStart count = .ok pages
  ends : ∃ page, pages.getLast? = some page ∧ page.nextCursor = none
  items_eq : pages.map Page.items = visits.map (·.map table.rows.get)

variable {paginator table} {request : Request} {pages : List (Page ρ)}
  {visits : List (List (Fin table.rows.length))}

theorem Walked.length_eq (h : Walked paginator table request pages visits) : pages.length = visits.length := by
  have hlength := congrArg List.length h.items_eq
  rwa [List.length_map, List.length_map] at hlength

theorem Walked.items_flatten (h : Walked paginator table request pages visits) :
    pages.flatMap Page.items = visits.flatten.map table.rows.get := by
  rw [List.flatMap_def, h.items_eq, List.map_flatten]

/-- All pages but the last are as long as all lists of positions but the last. -/
theorem Walked.length_items {limit : Nat} (h : Walked paginator table request pages visits)
    (hvisits : ∀ visit ∈ visits.dropLast, visit.length = limit) :
    ∀ page ∈ pages.dropLast, page.items.length = limit := by
  intro page hpage
  have hmem : page.items ∈ (visits.map (·.map table.rows.get)).dropLast := by
    rw [← h.items_eq, ← List.map_dropLast]
    exact List.mem_map_of_mem hpage
  rw [← List.map_dropLast] at hmem
  obtain ⟨visit, hvisit, heq⟩ := List.mem_map.mp hmem
  rw [← heq, List.length_map]
  exact hvisits visit hvisit

theorem exists_walked (paginator : Paginator) (table : Table Json.Object) (request : Request) :
    ∃ pages visits, Walked paginator table request pages visits ∧
      Visits (request.pageSizeUnder paginator.policy) request.sort (request.valueAt? table.rows)
        (SortKey.positions request.keys table.rows) visits := by
  obtain ⟨pages, visits, hwalks⟩ := exists_walksFrom paginator table
    (show request.fromStart.offsetMode = false from rfl) (fun _ _ => isFinite_of_value?)
  have hvisits := hwalks.shows
  rw [request.remaining_fromStart table.rows] at hvisits
  refine ⟨pages, visits, ⟨fun count hcount => hwalks.walk_eq count ?_, hwalks.ends, hwalks.items_eq⟩, hvisits⟩
  have hlength := hvisits.length_le (request.pageSizeUnder_pos paginator.policy)
  have hsame := congrArg List.length hwalks.items_eq
  rw [List.length_map, List.length_map] at hsame
  rw [SortKey.length_positions] at hlength
  exact hsame ▸ Nat.le_trans hlength hcount

/--
The outcome of a walk over JSON rows. It ends, all of its pages but the last are full, and what they
show is a part of the stable order, without repetition. A row that is not on the first page is left out
exactly if it has no value, the first page ends on a row without a value, or the row comes after the
last one of some page and has an equal value.
-/
theorem walk_exact (paginator : Paginator) (table : Table Json.Object) (request : Request) :
    let rows := table.rows
    let limit := request.pageSizeUnder paginator.policy
    let order := SortKey.positions request.keys rows
    let before := SortKey.Precedes request.keys rows
    order.Perm (List.finRange rows.length) ∧ order.Pairwise before ∧
      order.map rows.get = SortKey.sort request.keys rows ∧
      ∃ pages visits, Walked paginator table request pages visits ∧
        pages.length ≤ rows.length / limit + 1 ∧
        (∀ page ∈ pages.dropLast, page.items.length = limit) ∧
        visits.head? = some (order.take limit) ∧ visits.flatten.Sublist order ∧ visits.flatten.Nodup ∧
        ∀ i, i ∉ visits.flatten ↔
          i ∉ order.take limit ∧
            Visits.LeftOut limit (request.valueAt? rows) before order visits i := by
  intro rows limit order before
  have hordered : order.Pairwise before := SortKey.pairwise_positions request.keys rows
  have hlimit : 0 < limit := request.pageSizeUnder_pos paginator.policy
  obtain ⟨pages, visits, hwalked, hvisits⟩ := exists_walked paginator table request
  refine ⟨SortKey.positions_perm request.keys rows, hordered, SortKey.map_positions request.keys rows,
    pages, visits, hwalked, ?_, hwalked.length_items hvisits.length_of_mem_dropLast, hvisits.head?_eq,
    hvisits.flatten_sublist, ?_, fun i => ⟨fun hi => ?_, fun ⟨hi, hout⟩ => ?_⟩⟩
  · have hlength := hvisits.length_le hlimit
    rw [SortKey.length_positions] at hlength
    rwa [hwalked.length_eq]
  · exact (SortKey.nodup_positions request.keys rows).sublist hvisits.flatten_sublist
  · exact hvisits.leftOut_of_notMem hlimit hordered (fun _ _ => SortKey.isLE_of_precedes rows)
      (SortKey.mem_positions request.keys rows i) hi
  · exact hvisits.notMem_of_leftOut hordered (SortKey.precedes_asymm request.keys rows) hi hout

end Paginator

end Paging
