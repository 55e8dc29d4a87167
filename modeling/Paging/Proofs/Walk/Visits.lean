import Paging.Proofs.Filter.Boundary

/-!
What a walk visits. A walk that still has some rows before it shows the first of them, and goes on with
those of the others whose sort value lies strictly beyond the last one shown. From a sorted list it
visits rows in order, no row twice, and it leaves out a row for one of three reasons: the row has no
value, the walk ends on a row without a value, or the row follows the last one of some page and has an
equal value.
-/

namespace Paging

open Std

section

variable {α : Type} (limit : Nat) (key : SortKey) (value? : α → Option Scalar)

/-- The rows whose value lies strictly beyond a boundary. -/
def beyond (boundary : Scalar) (rows : List α) : List α :=
  rows.filter fun row => (RangeFilter.after key boundary).admits (value? row)

/-- The rows that a walk shows, page by page, with `rows` still before it. -/
inductive Visits : List α → List (List α) → Prop
  | last {rows : List α} (h : limit < rows.length → (rows.take limit).getLast?.bind value? = none) :
    Visits rows [rows.take limit]
  | next {rows : List α} {boundary : Scalar} {later : List (List α)} (hmore : limit < rows.length)
    (hboundary : (rows.take limit).getLast?.bind value? = some boundary)
    (hlater : Visits (beyond key value? boundary (rows.drop limit)) later) :
    Visits rows (rows.take limit :: later)

variable {limit key value?} {rows : List α} {visits : List (List α)}

theorem beyond_sublist (boundary : Scalar) (rows : List α) : (beyond key value? boundary rows).Sublist rows :=
  List.filter_sublist

namespace Visits

theorem ne_nil (h : Visits limit key value? rows visits) : visits ≠ [] := by
  cases h <;> exact List.cons_ne_nil _ _

/-- The first page shows as many rows as it can. -/
theorem head?_eq (h : Visits limit key value? rows visits) : visits.head? = some (rows.take limit) := by
  cases h <;> rfl

theorem flatten_sublist (h : Visits limit key value? rows visits) : visits.flatten.Sublist rows := by
  induction h with
  | last =>
    rw [List.flatten_singleton]
    exact List.take_sublist _ _
  | @next rows boundary later hmore hboundary hlater ih =>
    rw [List.flatten_cons]
    conv_rhs => rw [← List.take_append_drop limit rows]
    exact (List.Sublist.refl _).append (ih.trans (beyond_sublist boundary _))

theorem length_le (h : Visits limit key value? rows visits) (hlimit : 0 < limit) :
    visits.length ≤ rows.length / limit + 1 := by
  induction h with
  | last => exact Nat.le_add_left _ _
  | @next rows boundary later hmore hboundary hlater ih =>
    have hrest : (beyond key value? boundary (rows.drop limit)).length ≤ rows.length - limit := by
      rw [← List.length_drop]
      exact (beyond_sublist boundary _).length_le
    have hdiv : rows.length / limit = (rows.length - limit) / limit + 1 :=
      Nat.div_eq_sub_div hlimit (Nat.le_of_lt hmore)
    have hmono := Nat.div_le_div_right (c := limit) hrest
    rw [List.length_cons]
    omega

/-- All pages but the last are full. -/
theorem length_of_mem_dropLast (h : Visits limit key value? rows visits) :
    ∀ visit ∈ visits.dropLast, visit.length = limit := by
  induction h with
  | last => simp
  | @next rows boundary later hmore hboundary hlater ih =>
    rw [List.dropLast_cons_of_ne_nil hlater.ne_nil]
    refine List.forall_mem_cons.mpr ⟨?_, ih⟩
    rw [List.length_take]
    omega

/-! ### What a walk leaves out -/

/-- Both rows have a value, and the values are equal. -/
def Tied (value? : α → Option Scalar) (a b : α) : Prop :=
  ∃ first second, value? a = some first ∧ value? b = some second ∧ compare first second = .eq

theorem mem_beyond {boundary : Scalar} {i : α} :
    i ∈ beyond key value? boundary rows ↔
      i ∈ rows ∧ ∃ scalar, value? i = some scalar ∧ key.direction.apply (compare boundary scalar) = .lt := by
  rw [beyond, List.mem_filter, RangeFilter.admits_after_iff]

variable {before : α → α → Prop}

theorem eq_or_before_getLast? {list : List α} {i j : α} (hlist : list.Pairwise before)
    (hlast : list.getLast? = some j) (hi : i ∈ list) : i = j ∨ before i j := by
  obtain ⟨init, rfl⟩ := List.getLast?_eq_some_iff.mp hlast
  rcases List.mem_append.mp hi with hi | hi
  · exact Or.inr ((List.pairwise_append.mp hlist).2.2 i hi j (List.mem_singleton.mpr rfl))
  · exact Or.inl (List.mem_singleton.mp hi)

theorem exists_getLast?_of_bind {list : List α} {boundary : Scalar}
    (h : list.getLast?.bind value? = some boundary) :
    ∃ j, list.getLast? = some j ∧ value? j = some boundary :=
  Option.bind_eq_some_iff.mp h

/-- Nothing on a page lies beyond the value of its last row. -/
theorem beyond_eq_nil {list : List α} {boundary : Scalar} (hlist : list.Pairwise before)
    (hsort : ∀ a b, before a b →
      (key.direction.apply (SortKey.compareValues (value? a) (value? b))).isLE = true)
    (hboundary : list.getLast?.bind value? = some boundary) : beyond key value? boundary list = [] := by
  obtain ⟨j, hlast, hvalue⟩ := exists_getLast?_of_bind hboundary
  apply List.filter_eq_nil_iff.mpr
  intro i hi
  rw [Bool.not_eq_true]
  apply RangeFilter.not_admits_after_of_isLE
  rw [← hvalue]
  rcases eq_or_before_getLast? hlist hlast hi with rfl | hbefore
  · have hself : SortKey.compareValues (value? i) (value? i) = .eq := Std.ReflCmp.compare_self
    rw [hself]
    cases key.direction <;> rfl
  · exact hsort i j hbefore

/-- A row that ties with the last row of a page before it is shown on no page. -/
theorem notMem_of_tied (h : Visits limit key value? rows visits) (hrows : rows.Pairwise before)
    (hasymm : ∀ a b, before a b → ¬before b a) {visit : List α} (hvisit : visit ∈ visits) {i j : α}
    (hlast : visit.getLast? = some j) (hbefore : before j i) (htied : Tied value? j i) :
    i ∉ visits.flatten := by
  have hpage {rows : List α} (hrows : rows.Pairwise before) (hlast : (rows.take limit).getLast? = some j) :
      i ∉ rows.take limit := by
    intro hi
    rcases eq_or_before_getLast? (hrows.sublist (List.take_sublist _ _)) hlast hi with rfl | hij
    · exact hasymm _ _ hbefore hbefore
    · exact hasymm _ _ hbefore hij
  induction h with
  | last =>
    rw [List.mem_singleton.mp hvisit] at hlast
    rw [List.flatten_singleton]
    exact hpage hrows hlast
  | @next rows boundary later hmore hboundary hlater ih =>
    rw [List.flatten_cons, List.mem_append, not_or]
    have hbeyond : (beyond key value? boundary (rows.drop limit)).Sublist rows :=
      (beyond_sublist boundary _).trans (List.drop_sublist limit rows)
    have hrest := hrows.sublist hbeyond
    rcases List.mem_cons.mp hvisit with rfl | hvisit
    · refine ⟨hpage hrows hlast, fun hi => ?_⟩
      obtain ⟨_, scalar, hscalar, hless⟩ := mem_beyond.mp (hlater.flatten_sublist.subset hi)
      obtain ⟨first, second, hfirst, hsecond, heq⟩ := htied
      rw [hlast, Option.bind_some, hfirst, Option.some.injEq] at hboundary
      rw [hscalar, Option.some.injEq] at hsecond
      rw [← hboundary, hsecond, heq] at hless
      cases hdirection : key.direction <;> rw [hdirection] at hless <;> cases hless
    · refine ⟨fun hi => ?_, ih hrest hvisit⟩
      have hj : j ∈ rows.drop limit := by
        have hmem := List.mem_flatten_of_mem hvisit (List.mem_of_getLast? hlast)
        exact (beyond_sublist boundary _).subset (hlater.flatten_sublist.subset hmem)
      rw [← List.take_append_drop limit rows, List.pairwise_append] at hrows
      exact hasymm _ _ hbefore (hrows.2.2 i hi j hj)

/-- Why a row that is not on the first page is on none. -/
def LeftOut (limit : Nat) (value? : α → Option Scalar) (before : α → α → Prop) (rows : List α)
    (visits : List (List α)) (i : α) : Prop :=
  value? i = none ∨ (∃ j, (rows.take limit).getLast? = some j ∧ value? j = none) ∨
    ∃ visit ∈ visits, ∃ j, visit.getLast? = some j ∧ before j i ∧ Tied value? j i

theorem notMem_of_leftOut (h : Visits limit key value? rows visits) (hrows : rows.Pairwise before)
    (hasymm : ∀ a b, before a b → ¬before b a) {i : α} (hi : i ∉ rows.take limit)
    (hout : LeftOut limit value? before rows visits i) : i ∉ visits.flatten := by
  rcases hout with hnone | ⟨j, hlast, hnone⟩ | ⟨visit, hvisit, j, hlast, hbefore, htied⟩
  · cases h with
    | last =>
      rw [List.flatten_singleton]
      exact hi
    | next hmore hboundary hlater =>
      rw [List.flatten_cons, List.mem_append, not_or]
      refine ⟨hi, fun hmem => ?_⟩
      obtain ⟨_, scalar, hscalar, _⟩ := mem_beyond.mp (hlater.flatten_sublist.subset hmem)
      rw [hnone] at hscalar
      cases hscalar
  · cases h with
    | last =>
      rw [List.flatten_singleton]
      exact hi
    | next hmore hboundary hlater =>
      rw [hlast, Option.bind_some, hnone] at hboundary
      cases hboundary
  · exact notMem_of_tied h hrows hasymm hvisit hlast hbefore htied

/-- The last page ends on a row without a value where it does not show all that remains. -/
theorem exists_getLast?_of_notMem_last (hlimit : 0 < limit)
    (hlast : limit < rows.length → (rows.take limit).getLast?.bind value? = none) {i : α}
    (hi : i ∈ rows) (hmem : i ∉ rows.take limit) :
    ∃ j, (rows.take limit).getLast? = some j ∧ value? j = none := by
  have hmore : limit < rows.length := by
    by_contra hall
    rw [List.take_of_length_le (Nat.le_of_not_lt hall)] at hmem
    exact hmem hi
  have hne : rows.take limit ≠ [] := by
    apply List.ne_nil_of_length_pos
    rw [List.length_take]
    omega
  have hnone := hlast hmore
  rw [List.getLast?_eq_some_getLast hne, Option.bind_some] at hnone
  exact ⟨(rows.take limit).getLast hne, List.getLast?_eq_some_getLast hne, hnone⟩

theorem leftOut_of_notMem (h : Visits limit key value? rows visits) (hlimit : 0 < limit)
    (hrows : rows.Pairwise before)
    (hsort : ∀ a b, before a b →
      (key.direction.apply (SortKey.compareValues (value? a) (value? b))).isLE = true)
    {i : α} (hi : i ∈ rows) (hmem : i ∉ visits.flatten) :
    i ∉ rows.take limit ∧ LeftOut limit value? before rows visits i := by
  induction h with
  | last hlast =>
    rw [List.flatten_singleton] at hmem
    exact ⟨hmem, Or.inr (Or.inl (exists_getLast?_of_notMem_last hlimit hlast hi hmem))⟩
  | @next rows boundary later hmore hboundary hlater ih =>
    rw [List.flatten_cons, List.mem_append, not_or] at hmem
    obtain ⟨hfirst, hrest⟩ := hmem
    refine ⟨hfirst, ?_⟩
    obtain ⟨j, hlast, hvalue⟩ := exists_getLast?_of_bind hboundary
    rw [← List.take_append_drop limit rows, List.mem_append, or_iff_right hfirst] at hi
    rw [← List.take_append_drop limit rows, List.pairwise_append] at hrows
    obtain ⟨_, hdrop, hacross⟩ := hrows
    have hbefore : before j i := hacross j (List.mem_of_getLast? hlast) i hi
    have horder := hsort j i hbefore
    rw [hvalue] at horder
    rcases RangeFilter.admits_after_of_isLE horder with hadmits | hnone | ⟨scalar, hscalar, heq⟩
    · have hi' : i ∈ beyond key value? boundary (rows.drop limit) := List.mem_filter.mpr ⟨hi, hadmits⟩
      obtain ⟨_, hout⟩ := ih (hdrop.sublist (beyond_sublist boundary _)) hi' hrest
      rcases hout with hnone | ⟨j', hlast', hnone⟩ | ⟨visit, hvisit, hout⟩
      · exact Or.inl hnone
      · -- a page after the first shows no row without a value
        have hj' := (List.take_sublist limit _).subset (List.mem_of_getLast? hlast')
        obtain ⟨_, scalar, hscalar, _⟩ := mem_beyond.mp hj'
        rw [hnone] at hscalar
        cases hscalar
      · exact Or.inr (Or.inr ⟨visit, List.mem_cons_of_mem _ hvisit, hout⟩)
    · exact Or.inl hnone
    · exact Or.inr (Or.inr
        ⟨rows.take limit, List.mem_cons_self, j, hlast, hbefore, boundary, scalar, hvalue, hscalar, heq⟩)

end Visits

end

end Paging
