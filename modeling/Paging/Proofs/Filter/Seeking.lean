import Paging.Proofs.Filter.Boundary

/-!
Seeking against scanning. The filter after a boundary and the order of rows were written apart from one another,
and they agree: in the order under a key the rows that the filter after a boundary keeps stand together, so
that it makes no difference whether they are taken from the sorted rows or sorted by themselves.
-/

namespace Paging

open Std

/-- A condition that passes on to all that follows cuts a list in two. -/
theorem exists_append_of_pairwise {α : Type} {holds : α → Prop} {list : List α}
    (h : list.Pairwise fun a b => holds a → holds b) :
    ∃ front rear, list = front ++ rear ∧ (∀ a ∈ front, ¬holds a) ∧ ∀ a ∈ rear, holds a := by
  induction list with
  | nil => exact ⟨[], [], rfl, List.forall_mem_nil _, List.forall_mem_nil _⟩
  | cons a list ih =>
    obtain ⟨hfirst, hrest⟩ := List.pairwise_cons.mp h
    by_cases ha : holds a
    · exact ⟨[], a :: list, rfl, List.forall_mem_nil _,
        List.forall_mem_cons.mpr ⟨ha, fun b hb => hfirst b hb ha⟩⟩
    · obtain ⟨front, rear, rfl, hfront, hrear⟩ := ih hrest
      exact ⟨a :: front, rear, rfl, List.forall_mem_cons.mpr ⟨ha, hfront⟩, hrear⟩

namespace RangeFilter

theorem keeps_after_iff {ρ : Type} [Row ρ] (key : SortKey) (boundary : Scalar) (row : ρ) :
    (after key boundary).keeps row = true ↔
      ∃ value ∈ Row.value? row key.field, key.direction.apply (compare boundary value) = .lt :=
  admits_after_iff key boundary _

/-- What comes after a value beyond a boundary is beyond it, or missing where missing values come last. -/
theorem admits_after_of_admits {key : SortKey} {boundary : Scalar} {first second : Option Scalar}
    (hle : (key.direction.apply (SortKey.compareValues first second)).isLE = true)
    (hfirst : (after key boundary).admits first = true) :
    (after key boundary).admits second = true ∨ key.direction = .ascending ∧ second = none := by
  obtain ⟨value, rfl, hless⟩ := (admits_after_iff _ _ _).mp hfirst
  cases second with
  | none =>
    cases hdirection : key.direction with
    | ascending => exact Or.inr ⟨rfl, rfl⟩
    | descending =>
      rw [hdirection] at hle
      cases hle
  | some scalar =>
    have htrans := key.direction.transCmp_apply (compare (α := Scalar))
    exact Or.inl ((admits_after_iff _ _ _).mpr ⟨scalar, rfl, htrans.lt_of_lt_of_isLE hless hle⟩)

/-- A value that is not beyond a boundary does not come after it. -/
theorem isLE_of_not_admits_after {key : SortKey} {boundary value : Scalar}
    (h : (after key boundary).admits (some value) = false) :
    (key.direction.apply (compare value boundary)).isLE = true := by
  have htrans := key.direction.transCmp_apply (compare (α := Scalar))
  rw [← Bool.not_eq_true, admits_after_iff] at h
  cases hcmp : key.direction.apply (compare value boundary) with
  | lt => rfl
  | eq => rfl
  | gt => exact absurd ⟨value, rfl, htrans.gt_iff_lt.mp hcmp⟩ h

end RangeFilter

namespace SortKey

variable {ρ : Type} [Row ρ]

/-- A row without a value comes last under an ascending key. -/
def Trails (key : SortKey) (row : ρ) : Prop := key.direction = .ascending ∧ Row.value? row key.field = none

variable {key : SortKey}

theorem Trails.of_isLE {a b : ρ} (ha : key.Trails a) (hle : (compareBy key a b).isLE = true) : key.Trails b := by
  obtain ⟨hdirection, hnone⟩ := ha
  refine ⟨hdirection, ?_⟩
  cases hvalue : Row.value? b key.field with
  | none => rfl
  | some value =>
    rw [compareBy, hdirection, hnone, hvalue] at hle
    cases hle

theorem not_trails_of_keeps {boundary : Scalar} {row : ρ}
    (h : (RangeFilter.after key boundary).keeps row = true) : ¬key.Trails row := by
  rintro ⟨_, hnone⟩
  obtain ⟨value, hvalue, _⟩ := (RangeFilter.keeps_after_iff _ _ _).mp h
  rw [hnone] at hvalue
  cases hvalue

/-- In order, what the filter keeps is followed by what it keeps and by what trails, and by nothing else. -/
theorem exists_block (boundary : Scalar) {sorted : List ρ}
    (h : sorted.Pairwise fun a b => (compareBy key a b).isLE = true) :
    let filter := RangeFilter.after key boundary
    ∃ front rear, sorted = front ++ sorted.filter filter.keeps ++ rear ∧
      (∀ row ∈ front, filter.keeps row = false ∧ ¬key.Trails row) ∧ ∀ row ∈ rear, key.Trails row := by
  intro filter
  -- to be kept alone does not pass on: what trails is not kept, and it comes after what is
  have honwards : sorted.Pairwise fun a b =>
      filter.keeps a = true ∨ key.Trails a → filter.keeps b = true ∨ key.Trails b := by
    refine h.imp fun {a b} hle ha => ?_
    rcases ha with hkept | htrails
    · exact RangeFilter.admits_after_of_admits hle hkept
    · exact Or.inr (htrails.of_isLE hle)
  obtain ⟨front, rest, happend, hfront, hrest⟩ := exists_append_of_pairwise honwards
  -- a second cut parts the rows that trail from those that the filter keeps
  have htrails : rest.Pairwise fun a b => key.Trails a → key.Trails b := by
    rw [happend, List.pairwise_append] at h
    exact h.2.1.imp fun hle ha => ha.of_isLE hle
  obtain ⟨block, rear, rfl, hblock, hrear⟩ := exists_append_of_pairwise htrails
  have hbefore : ∀ row ∈ front, filter.keeps row = false ∧ ¬key.Trails row := by
    intro row hrow
    rw [← Bool.not_eq_true, ← not_or]
    exact hfront row hrow
  have hkept : sorted.filter filter.keeps = block := by
    have hnone : front.filter filter.keeps = [] :=
      List.filter_eq_nil_iff.mpr fun row hrow => Bool.not_eq_true _ ▸ (hbefore row hrow).1
    have hall : block.filter filter.keeps = block := List.filter_eq_self.mpr fun row hrow =>
      (hrest row (List.mem_append_left _ hrow)).resolve_right (hblock row hrow)
    have hlast : rear.filter filter.keeps = [] :=
      List.filter_eq_nil_iff.mpr fun row hrow hkeeps => not_trails_of_keeps hkeeps (hrear row hrow)
    rw [happend, List.filter_append, List.filter_append, hnone, hall, hlast, List.nil_append, List.append_nil]
  refine ⟨front, rear, ?_, hbefore, hrear⟩
  rw [hkept, List.append_assoc]
  exact happend

/--
The rows beyond a boundary, in their stable order, are what the stable order of all rows has beyond it. There they
follow one another, after all that is not beyond the boundary and, under a descending key, the rows without a value.
What comes after them has no value, and under a descending key nothing does.
-/
theorem seek_eq_scan (key : SortKey) (others : List SortKey) (boundary : Scalar) (rows : List ρ) :
    let filter := RangeFilter.after key boundary
    let sorted := sort (key :: others) rows
    (∀ stored list : List ρ,
      StablySorts (compareRows (key :: others)) stored list ↔ list = sort (key :: others) stored) ∧
    (∀ row : ρ, filter.keeps row = true ↔
      ∃ value ∈ Row.value? row key.field, key.direction.apply (compare boundary value) = .lt) ∧
    sort (key :: others) (rows.filter filter.keeps) = sorted.filter filter.keeps ∧
    ∃ front rear, sorted = front ++ sorted.filter filter.keeps ++ rear ∧
      (∀ row ∈ front,
        (∃ value ∈ Row.value? row key.field, (key.direction.apply (compare value boundary)).isLE = true) ∨
          (key.direction = .descending ∧ Row.value? row key.field = none)) ∧
      ∀ row ∈ rear, key.direction = .ascending ∧ Row.value? row key.field = none := by
  intro filter sorted
  have hsorted : sorted.Pairwise fun a b => (compareBy key a b).isLE = true :=
    (pairwise_sort (key :: others) rows).imp isLE_compareBy
  obtain ⟨front, rear, happend, hfront, hrear⟩ := exists_block boundary hsorted
  refine ⟨stablySorts_iff (key :: others), RangeFilter.keeps_after_iff key boundary,
    (filter_sort _ rows filter.keeps).symm, front, rear, happend, fun row hrow => ?_, hrear⟩
  obtain ⟨hkeeps, htrails⟩ := hfront row hrow
  cases hvalue : Row.value? row key.field with
  | none =>
    cases hdirection : key.direction with
    | ascending => exact absurd ⟨hdirection, hvalue⟩ htrails
    | descending => exact Or.inr ⟨rfl, rfl⟩
  | some value =>
    have hadmits : (RangeFilter.after key boundary).admits (Row.value? row key.field) = false := hkeeps
    rw [hvalue] at hadmits
    exact Or.inl ⟨value, rfl, RangeFilter.isLE_of_not_admits_after hadmits⟩

end SortKey

end Paging
