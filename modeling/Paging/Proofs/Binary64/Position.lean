import Mathlib.Data.Int.ConditionallyCompleteOrder
import Paging.Proofs.Binary64.Rounding

/-!
Places on the number line: every float has one on a line of integers whose unit is the smallest positive float,
and the integers of other types have exact places on the same line. The units of a float grow strictly with its
magnitude, so floats of one sign are placed in the order of their magnitudes, and two floats stand in one place
only if both are zero.
-/

namespace Paging

namespace Binary64

/-- The place on the number line, in units of `2 ^ -1074`. Both zeros stand at `0`. -/
def position (x : Binary64) : Int :=
  if x.negative then -(x.units : Int) else x.units

/-- The place of an integer on the line of `Binary64.position`. -/
def positionOfInt (i : Int) : Int := i * (1 <<< 1074 : Nat)

theorem units_lt_of_magnitude_lt {x y : Binary64} (h : x.magnitude < y.magnitude) : x.units < y.units := by
  obtain ⟨significand, step, hunits, hmagnitude, hlt, hle⟩ := exists_units x
  obtain ⟨significand', step', hunits', hmagnitude', hlt', hle'⟩ := exists_units y
  rw [hunits, hunits']
  rcases Nat.lt_trichotomy step step' with hless | rfl | hgreater
  · have hshift : 53 + step = 52 + (step + 1) := by omega
    calc significand * 2 ^ step < 2 ^ 53 * 2 ^ step := Nat.mul_lt_mul_of_pos_right hlt (by positivity)
      _ = 2 ^ 52 * 2 ^ (step + 1) := by rw [← Nat.pow_add, hshift, Nat.pow_add]
      _ ≤ 2 ^ 52 * 2 ^ step' := Nat.mul_le_mul_left _ (Nat.pow_le_pow_right (by decide) hless)
      _ ≤ significand' * 2 ^ step' := Nat.mul_le_mul_right _ (hle' (by omega))
  · exact Nat.mul_lt_mul_of_pos_right (by omega) (by positivity)
  · -- a float of a larger step has a larger magnitude
    have := hle (by omega)
    omega

theorem natAbs_position (x : Binary64) : x.position.natAbs = x.units := by
  unfold position
  split
  · rw [Int.natAbs_neg, Int.natAbs_natCast]
  · exact Int.natAbs_natCast _

theorem magnitude_eq_of_units_eq {x y : Binary64} (h : x.units = y.units) : x.magnitude = y.magnitude := by
  rw [← nearestMagnitude_units x Nat.one_pos, h, nearestMagnitude_units y Nat.one_pos]

theorem units_eq_zero_iff (x : Binary64) : x.units = 0 ↔ x.magnitude = 0 := by
  constructor
  · intro hunits
    have hmagnitude := nearestMagnitude_units x Nat.one_pos
    rw [hunits, nearestMagnitude_eq_zero (by decide)] at hmagnitude
    exact hmagnitude.symm
  · intro hmagnitude
    simp [units, hmagnitude]

theorem eq_of_negative_eq {x y : Binary64} (hsign : x.negative = y.negative)
    (hmagnitude : x.magnitude = y.magnitude) : x = y := by
  cases x
  cases y
  cases hsign
  cases hmagnitude
  rfl

/-- Two floats stand in one place only if they are the same or both are zero. -/
theorem position_eq_iff (x y : Binary64) :
    x.position = y.position ↔ x = y ∨ (x.magnitude = 0 ∧ y.magnitude = 0) := by
  constructor
  · intro h
    have hunits : x.units = y.units := by rw [← natAbs_position, h, natAbs_position]
    have hmagnitude := magnitude_eq_of_units_eq hunits
    by_cases hsign : x.negative = y.negative
    · exact Or.inl (eq_of_negative_eq hsign hmagnitude)
    · -- of different signs, the places are opposite
      have hzero : y.units = 0 := by
        unfold position at h
        rw [Bool.eq_not_of_ne hsign, hunits] at h
        cases hy : y.negative <;> simp only [hy, Bool.not_true, Bool.not_false, if_true, Bool.false_eq_true,
          if_false] at h <;> omega
      exact Or.inr ⟨(units_eq_zero_iff x).mp (hunits.trans hzero), (units_eq_zero_iff y).mp hzero⟩
  · rintro (rfl | ⟨hx, hy⟩)
    · rfl
    · rw [← units_eq_zero_iff] at hx hy
      simp [position, hx, hy]

theorem strictMono_positionOfInt : StrictMono positionOfInt := by
  intro i j h
  refine Int.mul_lt_mul_of_pos_right h ?_
  rw [Nat.one_shiftLeft]
  positivity

theorem positionOfInt_injective {i j : Int} (h : positionOfInt i = positionOfInt j) : i = j :=
  strictMono_positionOfInt.injective h

end Binary64

end Paging
