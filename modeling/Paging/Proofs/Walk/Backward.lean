import Paging.Proofs.Walk.Offsets

/-!
Walks turned back. The previous cursor of a page carries the value of its first row, and strictly after
that value in the other direction come the rows of all pages before. Where all values are different, a
page in the other direction therefore shows the page before, its last row first.
-/

namespace Paging

open Std

section

variable {α : Type} {cmp : α → α → Ordering} [OrientedCmp cmp]

/-- On a strictly ascending list, the elements less than one of them are those before it. -/
theorem filter_eq_take {list : List α} (h : list.Pairwise fun a b => cmp a b = .lt) {count : Nat} {pivot : α}
    (hpivot : list[count]? = some pivot) {p : α → Bool}
    (hp : ∀ a ∈ list, p a = true ↔ cmp a pivot = .lt) : list.filter p = list.take count := by
  induction list generalizing count with
  | nil => cases hpivot
  | cons a list ih =>
    obtain ⟨hfirst, hrest⟩ := List.pairwise_cons.mp h
    cases count with
    | zero =>
      obtain rfl := Option.some.inj hpivot
      apply List.filter_eq_nil_iff.mpr
      intro b hb
      rw [hp b hb]
      rcases List.mem_cons.mp hb with rfl | hb
      · exact fun hless => absurd hless (OrientedCmp.not_lt_of_lt hless)
      · exact OrientedCmp.not_lt_of_lt (hfirst b hb)
    | succ count =>
      have hless : cmp a pivot = .lt := hfirst pivot (List.mem_of_getElem? hpivot)
      have hothers : ∀ b ∈ list, p b = true ↔ cmp b pivot = .lt :=
        fun b hb => hp b (List.mem_cons_of_mem a hb)
      rw [List.filter_cons_of_pos ((hp a List.mem_cons_self).mpr hless), List.take_succ_cons,
        ih hrest hpivot hothers]

end

variable {ρ : Type} [Row ρ]

namespace SortKey

/-- The same field in the other direction. -/
def flip (key : SortKey) : SortKey := { key with direction := key.direction.flip }

theorem compareBy_flip (key : SortKey) (a b : ρ) : compareBy key.flip a b = compareBy key b a := by
  have hswap : compareValues (Row.value? b key.field) (Row.value? a key.field) =
      (compareValues (Row.value? a key.field) (Row.value? b key.field)).swap := OrientedCmp.eq_swap
  unfold compareBy flip
  rw [hswap]
  cases key.direction with
  | ascending => rfl
  | descending => exact Ordering.swap_swap.symm

theorem compareBy_eq_of_compareRows {key : SortKey} {keys : List SortKey} {a b : ρ}
    (h : compareRows (key :: keys) a b = .eq) : compareBy key a b = .eq :=
  (Ordering.then_eq_eq.mp h).1

theorem isLE_compareRows_of_lt {key : SortKey} (keys : List SortKey) {a b : ρ}
    (h : compareBy key a b = .lt) : (compareRows (key :: keys) a b).isLE = true := by
  rw [compareRows_cons, compareLex, h]
  rfl

end SortKey

/-! ### What comes before a row -/

theorem Keyset.pairwise_found_lt (request : Request) {rows : List ρ}
    (hdistinct : rows.Pairwise fun a b => SortKey.compareBy request.sort a b ≠ .eq) :
    (found request rows).Pairwise fun a b => SortKey.compareBy request.sort a b = .lt := by
  refine ((pairwise_found request rows).and (pairwise_found_ne request hdistinct)).imp ?_
  rintro a b ⟨hle, hne⟩
  cases hcmp : SortKey.compareBy request.sort a b with
  | lt => rfl
  | eq => exact absurd hcmp hne
  | gt =>
    rw [hcmp] at hle
    cases hle

namespace Request

variable {request back : Request} {rows : List ρ}

/-- Going on after a value in the other direction is going back to what comes before it. -/
theorem admits_goOn_iff_lt (hsort : back.sort = request.sort.flip) {first row : ρ} {boundary : Scalar}
    (hfinite : boundary.isFinite = true) (hfirst : Row.value? first request.sort.field = some boundary)
    (hrow : (Row.value? row request.sort.field).isSome = true) :
    (back.goOn boundary).admits (Row.value? row (back.goOn boundary).sort.field) = true ↔
      SortKey.compareBy request.sort row first = .lt := by
  have hfield : back.sort.field = request.sort.field := by rw [hsort]; rfl
  rw [admits_iff_reaches, back.reaches_goOn_iff hfinite (hfield ▸ hfirst), SortKey.before_iff, hfield, hfirst,
    hsort, SortKey.compareBy_flip]
  simp [hrow]

/--
What is found in the other direction after the value of a row is what is found before that row, backwards.
-/
theorem found_goOn_flip (hsort : back.sort = request.sort.flip)
    (hvalues : ∀ row ∈ rows, (Row.value? row request.sort.field).isSome = true)
    (hdistinct : rows.Pairwise fun a b => SortKey.compareBy request.sort a b ≠ .eq) {count : Nat} {first : ρ}
    (hfirst : (Keyset.found request.fromStart rows)[count]? = some first) {boundary : Scalar}
    (hfinite : boundary.isFinite = true) (hboundary : Row.value? first request.sort.field = some boundary) :
    Keyset.found (back.goOn boundary) rows = ((Keyset.found request.fromStart rows).take count).reverse := by
  have hascending := Keyset.pairwise_found_lt request.fromStart hdistinct
  have hperm : (Keyset.found request.fromStart rows).Perm rows := by
    rw [found_fromStart]
    exact SortKey.sort_perm request.keys rows
  have hbefore := filter_eq_take hascending hfirst fun row hrow =>
    admits_goOn_iff_lt hsort hfinite hboundary (hvalues row (hperm.subset hrow))
  -- the tie breakers of the two requests may differ: between different values none comes into play
  obtain ⟨others, hkeys⟩ := back.exists_keys
  refine SortKey.sort_eq_of_perm _ ?_ ?_ ?_
  · rw [← hbefore]
    exact (List.reverse_perm _).trans (hperm.filter _)
  · rw [List.pairwise_reverse]
    refine (hascending.sublist (List.take_sublist count _)).imp fun {a b} hless => ?_
    change (SortKey.compareRows back.keys b a).isLE = true
    rw [hkeys]
    apply SortKey.isLE_compareRows_of_lt
    rw [hsort, SortKey.compareBy_flip]
    exact hless
  · refine (hdistinct.sublist List.filter_sublist).imp fun {a b} hne heq => hne ?_
    change SortKey.compareRows back.keys a b = .eq at heq
    rw [hkeys] at heq
    have hflip := SortKey.compareBy_eq_of_compareRows heq
    rw [hsort, SortKey.compareBy_flip] at hflip
    exact OrientedCmp.eq_symm hflip

end Request

/-! ### The requests of a walk -/

namespace Paginator

variable {paginator : Paginator} {table : Table ρ} {request : Request} {count : Nat} {pages : List (Page ρ)}

/-- A walk has a first page, and ends with it or goes on after it. -/
theorem walk_succ_cases (h : paginator.walk table request (count + 1) = .ok pages) :
    ∃ page, paginator.pageOf table request = .ok page ∧
      ((page.nextCursor = none ∧ pages = [page]) ∨
        ∃ token later, page.nextCursor = some token ∧
          paginator.walk table (request.withCursor token) count = .ok later ∧ pages = page :: later) := by
  cases hpage : paginator.pageOf table request with
  | error error =>
    simp only [walk, hpage, bind, Except.bind] at h
    cases h
  | ok page =>
    refine ⟨page, rfl, ?_⟩
    cases hnext : page.nextCursor with
    | none =>
      rw [walk_last paginator table hpage hnext] at h
      exact Or.inl ⟨rfl, (Except.ok.inj h).symm⟩
    | some token =>
      refine Or.inr ?_
      cases hlater : paginator.walk table (request.withCursor token) count with
      | error error =>
        simp only [walk, hpage, bind, Except.bind, hnext, hlater] at h
        cases h
      | ok later =>
        rw [walk_next paginator table hpage hnext hlater] at h
        exact ⟨token, later, rfl, hlater, (Except.ok.inj h).symm⟩

/--
The page of an index of a walk along rows of different values is that of a request that finds what full
pages before it leave.
-/
theorem exists_request_of_walk (hmode : request.offsetMode = false)
    (hvalues : Valued request.sort.field table.rows)
    (hdistinct : table.rows.Pairwise fun a b => SortKey.compareBy request.sort a b ≠ .eq)
    (hwalk : paginator.walk table request count = .ok pages) {index : Nat} {page : Page ρ}
    (hpage : pages[index]? = some page) :
    let limit := request.pageSizeUnder paginator.policy
    let found := Keyset.found request table.rows
    ∃ cursor, paginator.pageOf table { request with cursor := cursor } = .ok page ∧
      Keyset.found { request with cursor := cursor } table.rows = found.drop (index * limit) ∧
      { request with cursor := cursor }.boundary?.isSome = (request.boundary?.isSome || decide (0 < index)) ∧
      (0 < index → index * limit < found.length) := by
  intro limit found
  -- a step takes one page off what is found, and the page of an index is that of one less later on
  induction count generalizing request pages index with
  | zero =>
    obtain rfl := Except.ok.inj hwalk
    cases hpage
  | succ count ih =>
    obtain ⟨first, hfirst, hrest⟩ := walk_succ_cases hwalk
    cases index with
    | zero =>
      have hsame : page = first := by
        rcases hrest with ⟨_, rfl⟩ | ⟨_, _, _, _, rfl⟩ <;> exact (Option.some.inj hpage).symm
      refine ⟨request.cursor, hsame ▸ hfirst, ?_, ?_, nofun⟩
      · rw [Nat.zero_mul]
        rfl
      · simp
    | succ index =>
      rcases hrest with ⟨_, rfl⟩ | ⟨token, later, hnext, hlater, rfl⟩
      · cases hpage
      rcases nextCursor_drop_cases paginator table hmode hvalues hdistinct hfirst with
        ⟨_, hnone⟩ | ⟨hmore, boundary, hfinite, hsome, hrest⟩
      · exact absurd (hnext.symm.trans hnone) nofun
      obtain rfl := Option.some.inj (hnext.symm.trans hsome)
      obtain ⟨cursor, hcurrent, hleft, hpreceded, hlength⟩ :=
        @ih (request.goOn boundary) later hmode hvalues hdistinct hlater index hpage
      rw [request.boundary?_goOn hfinite] at hpreceded
      have hskip : limit + index * limit = (index + 1) * limit := by
        rw [Nat.succ_mul, Nat.add_comm]
      change _ = List.drop limit found at hrest
      change _ = List.drop (index * limit) _ at hleft
      change 0 < index → index * limit < List.length _ at hlength
      rw [hrest, List.drop_drop, hskip] at hleft
      rw [hrest, List.length_drop] at hlength
      refine ⟨cursor, hcurrent, hleft, ?_, fun _ => ?_⟩
      · rw [decide_eq_true (Nat.succ_pos index), Bool.or_true]
        exact hpreceded
      · rcases Nat.eq_zero_or_pos index with rfl | hindex
        · rw [← hskip, Nat.zero_mul]
          exact hmore
        · have hless := hlength hindex
          omega

/-- What the page of an index shows, and where its previous cursor comes from. -/
theorem page_of_walk (hmode : request.offsetMode = false) (hvalues : Valued request.sort.field table.rows)
    (hdistinct : table.rows.Pairwise fun a b => SortKey.compareBy request.sort a b ≠ .eq)
    (hwalk : paginator.walk table request count = .ok pages) {index : Nat} {page : Page ρ}
    (hpage : pages[index]? = some page) :
    let limit := request.pageSizeUnder paginator.policy
    let found := Keyset.found request table.rows
    page.items = (found.drop (index * limit)).take limit ∧
      (0 < index → ∃ first, found[index * limit]? = some first ∧
        page.previousCursor = Keyset.tokenOf? request.sort.field (some first)) := by
  intro limit found
  have hlimit : 0 < limit := request.pageSizeUnder_pos paginator.policy
  obtain ⟨cursor, hcurrent, hleft, hpreceded, hlength⟩ :=
    exists_request_of_walk hmode hvalues hdistinct hwalk hpage
  have hkeyset := pageOf_keyset paginator table
    (show { request with cursor := cursor }.offsetMode = false from hmode)
  rw [hleft, hpreceded] at hkeyset
  obtain rfl := Except.ok.inj (hkeyset.symm.trans hcurrent)
  refine ⟨rfl, fun hindex => ?_⟩
  have hfirst := List.getElem?_eq_getElem (hlength hindex)
  have hhead : ((found.drop (index * limit)).take limit).head? = found[index * limit]? := by
    rw [List.head?_take, if_neg (Nat.ne_of_gt hlimit), List.head?_drop]
  refine ⟨_, hfirst, ?_⟩
  rw [decide_eq_true hindex, Bool.or_true]
  rw [hfirst] at hhead
  exact congrArg (Keyset.tokenOf? request.sort.field) hhead

end Paginator

/-! ### One page back -/

/--
A request goes through the sort field of another one in the other direction, with pages of the same size.
Its tie breaker, and whether it counts, are its own.
-/
structure Request.Opposes (back request : Request) : Prop where
  sort : back.sort = request.sort.flip
  limit : back.limit = request.limit
  keyset : back.offsetMode = false

theorem Request.Opposes.goOn_eq {back request : Request} (h : back.Opposes request) (boundary : Scalar) :
    back.goOn boundary = back.withCursor (Cursor.token ⟨request.sort.field, boundary⟩) := by
  rw [goOn, h.sort]
  rfl

theorem Request.Opposes.pageSizeUnder_eq {back request : Request} (h : back.Opposes request) (policy : Policy) :
    back.pageSizeUnder policy = request.pageSizeUnder policy := by
  rw [pageSizeUnder, pageSizeUnder, limitWithin, limitWithin, h.limit]

namespace Paginator

variable (paginator : Paginator) (table : Table ρ) {request back : Request}

/-- The page before a position of the order, in the other direction, and whether others are before it. -/
theorem exists_page_before (hback : back.Opposes request)
    (hvalues : ∀ row ∈ table.rows, (Row.value? row request.sort.field).isSome = true)
    (hdistinct : table.rows.Pairwise fun a b => SortKey.compareBy request.sort a b ≠ .eq) {first : ρ}
    {boundary : Scalar} (hfinite : boundary.isFinite = true)
    (hboundary : Row.value? first request.sort.field = some boundary) {index : Nat}
    (hfirst : (Keyset.found request.fromStart table.rows)[(index + 1) *
      request.pageSizeUnder paginator.policy]? = some first) :
    let limit := request.pageSizeUnder paginator.policy
    ∃ page, paginator.pageOf table (back.goOn boundary) = .ok page ∧
      page.items = (((Keyset.found request.fromStart table.rows).drop (index * limit)).take limit).reverse ∧
      (page.hasNext = true ↔ 0 < index) := by
  intro limit
  have hlimit : 0 < limit := request.pageSizeUnder_pos paginator.policy
  have hsize : (back.goOn boundary).pageSizeUnder paginator.policy = limit :=
    hback.pageSizeUnder_eq paginator.policy
  have hnext : (index + 1) * limit = index * limit + limit := Nat.succ_mul index limit
  have hcount : ((Keyset.found request.fromStart table.rows).take ((index + 1) * limit)).length =
      (index + 1) * limit := by
    rw [List.length_take]
    exact Nat.min_eq_left (Nat.le_of_lt (List.getElem?_eq_some_iff.mp hfirst).1)
  have hpage := pageOf_keyset paginator table (show (back.goOn boundary).offsetMode = false from hback.keyset)
  rw [hsize, Request.found_goOn_flip hback.sort hvalues hdistinct hfirst hfinite hboundary] at hpage
  refine ⟨_, hpage, ?_, ?_⟩
  · change List.take limit (List.reverse _) = _
    rw [List.take_reverse, hcount, hnext, Nat.add_sub_cancel, List.drop_take, Nat.add_sub_cancel_left]
  · change decide (limit < (List.reverse _).length) = true ↔ _
    rw [decide_eq_true_iff, List.length_reverse, hcount, hnext, Nat.lt_add_left_iff_pos]
    exact Nat.mul_pos_iff_of_pos_right hlimit

/--
A walk along JSON rows of different values can be turned back at each of its pages but the first: the
previous cursor of a page leads, in the other direction, to the rows of the page before it, the last one
first, and tells that more follow exactly where that page is not the first one.
-/
theorem walk_turns_back (table : Table Json.Object) (request : Request)
    (hvalues : ∀ row ∈ table.rows, (Row.value? row request.sort.field).isSome = true)
    (hdistinct : table.rows.Pairwise fun a b => SortKey.compareBy request.sort a b ≠ .eq) :
    ∃ pages, (∀ count, pages.length ≤ count → paginator.walk table request.fromStart count = .ok pages) ∧
      (∃ page, pages.getLast? = some page ∧ page.nextCursor = none) ∧
      ∀ index earlier later, pages[index]? = some earlier → pages[index + 1]? = some later →
        ∃ token, later.previousCursor = some token ∧
          ∀ back : Request, back.Opposes request →
            ∃ page, paginator.pageOf table (back.withCursor token) = .ok page ∧
              page.items = earlier.items.reverse ∧ (page.hasNext = true ↔ 0 < index) := by
  obtain ⟨pages, _, hwalks⟩ := exists_walksFrom paginator table
    (show request.fromStart.offsetMode = false from rfl) (fun _ _ => isFinite_of_value?)
  refine ⟨pages, hwalks.walk_eq, hwalks.ends, fun index earlier later hearlier hlater => ?_⟩
  have hmode : request.fromStart.offsetMode = false := rfl
  have hvalued := valued_of_isSome hvalues
  have hwalk := hwalks.walk_eq pages.length (Nat.le_refl _)
  obtain ⟨hshown, _⟩ := page_of_walk hmode hvalued hdistinct hwalk hearlier
  obtain ⟨_, hprevious⟩ := page_of_walk hmode hvalued hdistinct hwalk hlater
  obtain ⟨first, hfirst, htoken⟩ := hprevious (Nat.succ_pos index)
  have hrow := ((Keyset.mem_found request.fromStart).mp (List.mem_of_getElem? hfirst)).1
  obtain ⟨boundary, hboundary, hfinite⟩ := hvalued first hrow
  refine ⟨Cursor.token ⟨request.sort.field, boundary⟩, ?_, fun back hback => ?_⟩
  · rw [htoken]
    exact Keyset.tokenOf?_eq_some_iff.mpr ⟨first, rfl, boundary, hboundary, rfl⟩
  · obtain ⟨page, hpage, hitems, hnext⟩ :=
      exists_page_before paginator table hback hvalues hdistinct hfinite hboundary hfirst
    refine ⟨page, hback.goOn_eq boundary ▸ hpage, ?_, hnext⟩
    rw [hitems, hshown]
    rfl

/-- Rows of three ranks, the middle one last. -/
def threeRanks : Table Json.Object := ⟨[rankedRow 1 7, rankedRow 2 5, rankedRow 3 6]⟩

theorem turns_back_threeRanks :
    ∃ first second third token page,
      (default : Paginator).walk threeRanks rankRequest.fromStart 3 = .ok [first, second, third] ∧
      third.previousCursor = some token ∧
      (default : Paginator).pageOf threeRanks ({ rankRequest with sort := .desc "rank" }.withCursor token) =
        .ok page ∧
      page.items = second.items.reverse ∧ page.hasNext = true := by
  have hvalues : ∀ row ∈ threeRanks.rows, (Row.value? row rankRequest.sort.field).isSome = true := by
    decide +kernel
  have hdistinct : threeRanks.rows.Pairwise fun a b => SortKey.compareBy rankRequest.sort a b ≠ .eq := by
    decide +kernel
  obtain ⟨pages, hwalk, _, hback⟩ := walk_turns_back default threeRanks rankRequest hvalues hdistinct
  obtain ⟨tiles, htiled, _, htiles⟩ := exists_tiles default threeRanks
    (show rankRequest.fromStart.offsetMode = false from rfl) (valued_of_isSome hvalues) hdistinct rfl
  have hsame : pages = tiles := by
    have hfirst := hwalk _ (Nat.le_max_left pages.length tiles.length)
    have hsecond := htiled _ (Nat.le_max_right pages.length tiles.length)
    exact Except.ok.inj (hfirst.symm.trans hsecond)
  have hthree : pages.length = 3 := by
    rw [hsame, htiles.length_eq (rankRequest.pageSizeUnder_pos _), Request.found_fromStart, SortKey.length_sort]
    rfl
  obtain ⟨first, second, third, rfl⟩ := List.length_eq_three.mp hthree
  obtain ⟨token, htoken, hpages⟩ := hback 1 second third rfl rfl
  obtain ⟨page, hpage, hitems, hnext⟩ := hpages { rankRequest with sort := .desc "rank" } ⟨rfl, rfl, rfl⟩
  exact ⟨first, second, third, token, page, hwalk 3 (Nat.le_refl _), htoken, hpage, hitems,
    hnext.mpr Nat.one_pos⟩

end Paginator

end Paging
