import Paging.Filter
import Paging.Proofs.Sort.Stable

/-!
Values beyond a boundary. What the filter after a boundary admits is what comes strictly after it in the
direction of the sort key, so the filters of later boundaries admit less.
-/

namespace Paging

open Std

namespace RangeFilter

theorem admits_after_iff (key : SortKey) (boundary : Scalar) (value : Option Scalar) :
    (after key boundary).admits value = true ↔
      ∃ scalar, value = some scalar ∧ key.direction.apply (compare boundary scalar) = .lt := by
  have hswap (scalar : Scalar) : compare scalar boundary = (compare boundary scalar).swap :=
    OrientedOrd.eq_swap
  rcases value with _ | scalar
  · simp [admits]
  · obtain ⟨field, _ | _⟩ := key
    · simp [admits, after, Direction.apply, hswap, Ordering.swap_eq_gt]
    · simp [admits, after, Direction.apply, hswap, Ordering.swap_eq_lt]

/-- Values that are equal in order are boundaries to the same values. -/
theorem admits_after_congr (key : SortKey) {first second : Scalar} (heq : compare first second = .eq)
    (value : Option Scalar) : (after key first).admits value = (after key second).admits value := by
  have hcompare (scalar : Scalar) : compare first scalar = compare second scalar := TransCmp.congr_left heq
  rw [Bool.eq_iff_iff, admits_after_iff, admits_after_iff]
  simp only [hcompare]

/-- What is beyond a value that is beyond a boundary is beyond that boundary. -/
theorem admits_after_trans {key : SortKey} {first second : Scalar} {value : Option Scalar}
    (hfirst : (after key first).admits (some second) = true)
    (hsecond : (after key second).admits value = true) : (after key first).admits value = true := by
  rw [admits_after_iff] at hfirst hsecond ⊢
  obtain ⟨_, hsome, hfirst⟩ := hfirst
  obtain rfl := Option.some.inj hsome
  obtain ⟨scalar, rfl, hsecond⟩ := hsecond
  have htrans := key.direction.transCmp_apply (compare (α := Scalar))
  exact ⟨scalar, rfl, htrans.lt_trans hfirst hsecond⟩

/-- What comes after a boundary row in order and is not beyond its value has an equal value or none. -/
theorem admits_after_of_isLE {key : SortKey} {boundary : Scalar} {value : Option Scalar}
    (h : (key.direction.apply (SortKey.compareValues (some boundary) value)).isLE = true) :
    (after key boundary).admits value = true ∨ value = none ∨
      ∃ scalar, value = some scalar ∧ compare boundary scalar = .eq := by
  rcases value with _ | scalar
  · exact Or.inr (Or.inl rfl)
  · rw [admits_after_iff]
    cases hcmp : key.direction.apply (compare boundary scalar) with
    | lt => exact Or.inl ⟨scalar, rfl, hcmp⟩
    | eq =>
      refine Or.inr (Or.inr ⟨scalar, rfl, ?_⟩)
      cases hdirection : key.direction <;> simp_all [Direction.apply]
    | gt =>
      change (key.direction.apply (compare boundary scalar)).isLE = true at h
      rw [hcmp] at h
      cases h

/-- What comes before a boundary row in order is not beyond its value. -/
theorem not_admits_after_of_isLE {key : SortKey} {boundary : Scalar} {value : Option Scalar}
    (h : (key.direction.apply (SortKey.compareValues value (some boundary))).isLE = true) :
    (after key boundary).admits value = false := by
  rw [← Bool.not_eq_true, admits_after_iff]
  rintro ⟨scalar, rfl, hless⟩
  have htrans := key.direction.transCmp_apply (compare (α := Scalar))
  have hgreater := htrans.gt_of_lt hless
  change (key.direction.apply (compare scalar boundary)).isLE = true at h
  rw [hgreater] at h
  cases h

end RangeFilter

end Paging
