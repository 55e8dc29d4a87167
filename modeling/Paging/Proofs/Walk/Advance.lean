import Paging.Proofs.Walk.Exact

/-!
One page of a walk, in terms of its rows. Where every row has a value, a page shows rows that its request
reaches, and either it shows all of these, or the request that goes on from it reaches what comes
strictly after its last row.
-/

namespace Paging

open Std

variable {ρ : Type} [Row ρ]

/-- Every row has a value under a field, and one that a token can carry. -/
def Valued (field : String) (rows : List ρ) : Prop :=
  ∀ row ∈ rows, ∃ value, Row.value? row field = some value ∧ value.isFinite = true

theorem Valued.isSome {field : String} {rows : List ρ} (h : Valued field rows) :
    ∀ row ∈ rows, (Row.value? row field).isSome = true := by
  intro row hrow
  obtain ⟨value, hvalue, _⟩ := h row hrow
  rw [hvalue]
  rfl

/-- Values of JSON rows are finite. -/
theorem valued_of_isSome {field : String} {rows : List Json.Object}
    (h : ∀ row ∈ rows, (Row.value? row field).isSome = true) : Valued field rows := by
  intro row hrow
  obtain ⟨value, hvalue⟩ := Option.isSome_iff_exists.mp (h row hrow)
  exact ⟨value, hvalue, Paginator.isFinite_of_value? hvalue⟩

namespace SortKey

/-- Both rows have a value under a key, and that of the first comes strictly before that of the second. -/
def Before (key : SortKey) (a b : ρ) : Prop :=
  ∃ first ∈ Row.value? a key.field, ∃ second ∈ Row.value? b key.field,
    key.direction.apply (compare first second) = .lt

theorem before_iff {key : SortKey} {a b : ρ} :
    key.Before a b ↔ (Row.value? a key.field).isSome = true ∧ (Row.value? b key.field).isSome = true ∧
      compareBy key a b = .lt := by
  unfold Before compareBy
  cases Row.value? a key.field with
  | none => simp
  | some first =>
    cases Row.value? b key.field with
    | none => simp
    | some second => simp [compareValues]

/-- What comes strictly before or after a row does not compare equal to it. -/
theorem equalTo_eq_nil_of_before {key : SortKey} {row : ρ} {rows : List ρ}
    (h : ∀ other ∈ rows, key.Before other row ∨ key.Before row other) : equalTo (compareBy key) row rows = [] := by
  refine equalTo_eq_nil fun other hother heq => ?_
  rcases h other hother with hbefore | hbefore
  · exact absurd ((OrientedCmp.eq_symm heq).symm.trans (before_iff.mp hbefore).2.2) nofun
  · exact absurd (heq.symm.trans (before_iff.mp hbefore).2.2) nofun

theorem before_of_isLE_of_before {key : SortKey} {a b c : ρ}
    (ha : (Row.value? a key.field).isSome = true) (hab : (compareBy key a b).isLE = true)
    (hbc : key.Before b c) : key.Before a c := by
  obtain ⟨_, hc, hless⟩ := before_iff.mp hbc
  exact before_iff.mpr ⟨ha, hc, TransCmp.lt_of_isLE_of_lt hab hless⟩

end SortKey

section

variable {α : Type} {cmp : α → α → Ordering} [TransCmp cmp] {list : List α} {count : Nat} {last : α}

/-- On an ascending list nothing before the last of some first elements is greater than it. -/
theorem isLE_last_of_mem_take (h : list.Pairwise fun a b => (cmp a b).isLE = true)
    (hlast : (list.take count).getLast? = some last) {a : α} (ha : a ∈ list.take count) :
    (cmp a last).isLE = true := by
  rcases Visits.eq_or_before_getLast? (h.sublist (List.take_sublist count list)) hlast ha with rfl | hle
  · exact ReflCmp.isLE_rfl
  · exact hle

omit [TransCmp cmp] in
theorem isLE_last_of_mem_drop (h : list.Pairwise fun a b => (cmp a b).isLE = true)
    (hlast : (list.take count).getLast? = some last) {a : α} (ha : a ∈ list.drop count) :
    (cmp last a).isLE = true := by
  rw [← List.take_append_drop count list, List.pairwise_append] at h
  exact h.2.2 last (List.mem_of_getLast? hlast) a ha

end

namespace Keyset

variable (request : Request) {rows : List ρ}

theorem mem_found {row : ρ} : row ∈ found request rows ↔ row ∈ rows ∧ request.Reaches row := by
  rw [found, SortKey.mem_sort, List.mem_filter, request.admits_iff_reaches]

theorem pairwise_found (rows : List ρ) :
    (found request rows).Pairwise fun a b => (SortKey.compareBy request.sort a b).isLE = true :=
  (SortKey.pairwise_sort request.keys _).imp request.isLE_compareBy_of_isLE

theorem pairwise_found_ne (h : rows.Pairwise fun a b => SortKey.compareBy request.sort a b ≠ .eq) :
    (found request rows).Pairwise fun a b => SortKey.compareBy request.sort a b ≠ .eq := by
  refine ((SortKey.sort_perm request.keys _).pairwise_iff ?_).mpr (h.sublist List.filter_sublist)
  exact fun hne heq => hne (OrientedCmp.eq_symm heq)

end Keyset

namespace Request

variable (request : Request)

theorem reaches_fromStart (row : ρ) : request.fromStart.Reaches row := by
  intro boundary hboundary
  cases hboundary

theorem reaches_goOn_iff {last row : ρ} {boundary : Scalar} (hfinite : boundary.isFinite = true)
    (hlast : Row.value? last request.sort.field = some boundary) :
    (request.goOn boundary).Reaches row ↔ request.sort.Before last row := by
  unfold Reaches SortKey.Before
  rw [request.boundary?_goOn hfinite, hlast]
  constructor
  · intro h
    exact ⟨boundary, rfl, h boundary rfl⟩
  · rintro ⟨_, hfirst, h⟩ _ hboundary
    obtain rfl := Option.some.inj hfirst
    obtain rfl := Option.some.inj hboundary
    exact h

variable {request}

/-- A request that reaches a row reaches what comes after it. -/
theorem Reaches.of_before {a b : ρ} (ha : request.Reaches a) (hab : request.sort.Before a b) :
    request.Reaches b := by
  intro boundary hboundary
  obtain ⟨value, hvalue, hless⟩ := ha boundary hboundary
  obtain ⟨first, hfirst, second, hsecond, hmore⟩ := hab
  obtain rfl := Option.mem_unique hvalue hfirst
  have htrans := request.sort.direction.transCmp_apply (compare (α := Scalar))
  exact ⟨second, hsecond, htrans.lt_trans hless hmore⟩

/-- Equal values are reached together. -/
theorem Reaches.of_compareBy_eq {a b : ρ} (ha : request.Reaches a)
    (hab : SortKey.compareBy request.sort a b = .eq) : request.Reaches b := by
  intro boundary hboundary
  obtain ⟨value, hvalue, hless⟩ := ha boundary hboundary
  rw [SortKey.compareBy_eq_iff, Option.mem_def.mp hvalue] at hab
  cases hb : Row.value? b request.sort.field with
  | none =>
    rw [hb] at hab
    cases hab
  | some second =>
    rw [hb] at hab
    have htrans := request.sort.direction.transCmp_apply (compare (α := Scalar))
    have heq : request.sort.direction.apply (compare value second) = .eq :=
      (request.sort.direction.apply_eq_eq_iff _).mpr hab
    exact ⟨second, rfl, htrans.lt_of_lt_of_eq hless heq⟩

end Request

namespace Paginator

variable (paginator : Paginator) (table : Table ρ) {request : Request}

/-- Where every row has a value, a page names a next cursor exactly if it leaves rows out. -/
theorem nextCursor_cases (hmode : request.offsetMode = false)
    (hvalues : Valued request.sort.field table.rows) {page : Page ρ}
    (hpage : paginator.pageOf table request = .ok page) :
    let limit := request.pageSizeUnder paginator.policy
    let found := Keyset.found request table.rows
    (found.length ≤ limit ∧ page.nextCursor = none) ∨
      (limit < found.length ∧ ∃ last boundary, (found.take limit).getLast? = some last ∧
        Row.value? last request.sort.field = some boundary ∧ boundary.isFinite = true ∧
        page.nextCursor = some (Cursor.token ⟨request.sort.field, boundary⟩)) := by
  intro limit found
  obtain rfl := Except.ok.inj ((paginator.pageOf_keyset table hmode).symm.trans hpage)
  by_cases hmore : limit < found.length
  · have hne : found.take limit ≠ [] := by
      have hlimit : 0 < limit := request.pageSizeUnder_pos paginator.policy
      apply List.ne_nil_of_length_pos
      rw [List.length_take]
      omega
    have hlast := List.getLast?_eq_some_getLast hne
    have hrow := ((Keyset.mem_found request).mp (List.mem_of_mem_take (List.mem_of_getLast? hlast))).1
    obtain ⟨boundary, hboundary, hfinite⟩ := hvalues _ hrow
    refine Or.inr ⟨hmore, _, boundary, hlast, hboundary, hfinite, ?_⟩
    exact (if_pos (decide_eq_true hmore)).trans
      (Keyset.tokenOf?_eq_some_iff.mpr ⟨_, hlast, boundary, hboundary, rfl⟩)
  · exact Or.inl ⟨Nat.le_of_not_lt hmore, if_neg (by simpa using hmore)⟩

end Paginator

/-- What a page shows of the rows of a table, and what it leaves to the pages after it. -/
structure Advances (request : Request) (rows : List ρ) (page : Page ρ) : Prop where
  values : ∀ row ∈ rows, (Row.value? row request.sort.field).isSome = true
  shown : ∀ item ∈ page.items, item ∈ rows ∧ request.Reaches item
  distinct : (rows.Pairwise fun a b => SortKey.compareBy request.sort a b ≠ .eq) →
    page.items.Pairwise fun a b => SortKey.compareBy request.sort a b ≠ .eq
  ends : page.nextCursor = none → ∀ row ∈ rows, request.Reaches row → row ∈ page.items
  goesOn : ∀ token, page.nextCursor = some token → ∃ last ∈ page.items,
    (∀ item ∈ page.items, (SortKey.compareBy request.sort item last).isLE = true) ∧
    (∀ row ∈ rows, request.Reaches row →
      row ∈ page.items ∨ (SortKey.compareBy request.sort last row).isLE = true) ∧
    ∀ row : ρ, (request.withCursor token).Reaches row ↔ request.sort.Before last row

namespace Advances

variable {request : Request} {rows : List ρ} {page : Page ρ} {token : String}

/-- What a page shows comes strictly before what the request after it reaches. -/
theorem before_of_reaches (h : Advances request rows page) (hnext : page.nextCursor = some token) {a b : ρ}
    (ha : a ∈ page.items) (hb : (request.withCursor token).Reaches b) : request.sort.Before a b := by
  obtain ⟨last, _, hle, _, hreaches⟩ := h.goesOn token hnext
  exact SortKey.before_of_isLE_of_before (h.values a (h.shown a ha).1) (hle a ha) ((hreaches b).mp hb)

/-- What the request after a page reaches was reached before. -/
theorem reaches_of_reaches (h : Advances request rows page) (hnext : page.nextCursor = some token) {row : ρ}
    (hrow : (request.withCursor token).Reaches row) : request.Reaches row := by
  obtain ⟨last, hlast, _, _, hreaches⟩ := h.goesOn token hnext
  exact (h.shown last hlast).2.of_before ((hreaches row).mp hrow)

/-- A row that a page could show and does not show is left to the request after it. -/
theorem reaches_of_notMem (h : Advances request rows page) (hnext : page.nextCursor = some token)
    (hdistinct : rows.Pairwise fun a b => SortKey.compareBy request.sort a b ≠ .eq) {row : ρ}
    (hrow : row ∈ rows) (hreaches : request.Reaches row) (hmem : row ∉ page.items) :
    (request.withCursor token).Reaches row := by
  obtain ⟨last, hlast, _, hothers, hnextReaches⟩ := h.goesOn token hnext
  have hlastRow := (h.shown last hlast).1
  refine (hnextReaches row).mpr (SortKey.before_iff.mpr ⟨h.values last hlastRow, h.values row hrow, ?_⟩)
  have hle := (hothers row hrow hreaches).resolve_left hmem
  cases hcmp : SortKey.compareBy request.sort last row with
  | lt => rfl
  | eq =>
    have hsame := eq_of_pairwise_ne hdistinct hlastRow hrow hcmp
    exact absurd (hsame ▸ hlast) hmem
  | gt =>
    rw [hcmp] at hle
    cases hle

end Advances

namespace Paginator

theorem exists_advances (paginator : Paginator) (table : Table ρ) {request : Request}
    (hmode : request.offsetMode = false)
    (hvalues : Valued request.sort.field table.rows) :
    ∃ page, paginator.pageOf table request = .ok page ∧ Advances request table.rows page := by
  have hpage := pageOf_keyset paginator table hmode
  have hcases := nextCursor_cases paginator table hmode hvalues hpage
  refine ⟨_, hpage, hvalues.isSome, ?_, ?_, ?_, ?_⟩
  · intro item hitem
    exact (Keyset.mem_found request).mp (List.mem_of_mem_take hitem)
  · intro hdistinct
    exact (Keyset.pairwise_found_ne request hdistinct).sublist (List.take_sublist _ _)
  · intro hnext row hrow hreaches
    rcases hcases with ⟨hall, _⟩ | ⟨_, _, _, _, _, _, htoken⟩
    · have hfound := (Keyset.mem_found request).mpr ⟨hrow, hreaches⟩
      rwa [← List.take_of_length_le hall] at hfound
    · exact absurd (hnext.symm.trans htoken) nofun
  · intro token hnext
    rcases hcases with ⟨_, hnone⟩ | ⟨_, last, boundary, hlast, hboundary, hfinite, htoken⟩
    · exact absurd (hnext.symm.trans hnone) nofun
    · obtain rfl := Option.some.inj (hnext.symm.trans htoken)
      have hordered := Keyset.pairwise_found request table.rows
      refine ⟨last, List.mem_of_getLast? hlast, ?_, ?_, fun row => request.reaches_goOn_iff hfinite hboundary⟩
      · intro item hitem
        exact isLE_last_of_mem_take hordered hlast hitem
      · intro row hrow hreaches
        have hfound := (Keyset.mem_found request).mpr ⟨hrow, hreaches⟩
        rw [← List.take_append_drop (request.pageSizeUnder paginator.policy) (Keyset.found _ _),
          List.mem_append] at hfound
        exact hfound.imp_right (isLE_last_of_mem_drop hordered hlast)

end Paginator

end Paging
