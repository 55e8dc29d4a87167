import Paging.Proofs.Binary64.Position

/-!
Integers as floats. An integer with more bits than a significand holds goes to the nearest multiple of the
power of two by which it is too long, and so it keeps its order with other integers, though not its
difference from them.
-/

namespace Paging

theorem roundHalfEven_le (num den : Nat) : roundHalfEven num den ≤ num / den + 1 := by
  unfold roundHalfEven
  dsimp only
  split <;> omega

theorem roundHalfEven_mono {first second : Nat} (h : first ≤ second) (den : Nat) :
    roundHalfEven first den ≤ roundHalfEven second den := by
  have hquotients := Nat.div_le_div_right h (c := den)
  rcases Nat.lt_or_eq_of_le hquotients with hless | hequal
  · calc roundHalfEven first den ≤ first / den + 1 := roundHalfEven_le first den
      _ ≤ second / den := hless
      _ ≤ roundHalfEven second den := div_le_roundHalfEven second den
  · -- with equal quotients, the remainders are ordered as the numbers are
    have hfirst := Nat.div_add_mod first den
    have hsecond := Nat.div_add_mod second den
    rw [hequal] at hfirst
    simp only [roundHalfEven, hequal]
    split <;> split <;> omega

namespace Binary64

/-- A significand of 53 bits stands for itself times its power of two, also if it was rounded up to 54 bits. -/
theorem units_of_magnitude_eq {x : Binary64} {significand step : Nat}
    (hmagnitude : x.magnitude = step * 2 ^ 52 + significand) (hlower : 2 ^ 52 ≤ significand)
    (hupper : significand ≤ 2 ^ 53) : x.units = significand * 2 ^ step := by
  obtain ⟨significand', step', hunits, hmagnitude', hlt, hle⟩ := exists_units x
  rw [hunits]
  rcases Nat.lt_or_eq_of_le hupper with hless | rfl
  · obtain rfl : step' = step := by
      by_cases hstep : step' = 0
      · omega
      · have := hle hstep
        omega
    obtain rfl : significand' = significand := by omega
    rfl
  · obtain rfl : step' = step + 1 := by
      have hstep : step' ≠ 0 := by omega
      have := hle hstep
      omega
    obtain rfl : significand' = 2 ^ 52 := by omega
    rw [Nat.pow_succ 2 step]
    ring

theorem roundHalfEven_bounds {n extra : Nat} (hlower : 2 ^ (52 + extra) ≤ n) (hupper : n < 2 ^ (53 + extra)) :
    2 ^ 52 ≤ roundHalfEven n (2 ^ extra) ∧ roundHalfEven n (2 ^ extra) ≤ 2 ^ 53 := by
  have hpos : 0 < 2 ^ extra := by positivity
  constructor
  · refine Nat.le_trans ?_ (div_le_roundHalfEven n (2 ^ extra))
    rwa [Nat.le_div_iff_mul_le hpos, ← Nat.pow_add]
  · refine Nat.le_trans (roundHalfEven_le n (2 ^ extra)) ?_
    rwa [Nat.succ_le_iff, Nat.div_lt_iff_lt_mul hpos, ← Nat.pow_add]

/-- The magnitude nearest to an integer of `53 + extra` bits, in any unit. -/
theorem nearestMagnitude_shiftLeft {n extra : Nat} (hlower : 2 ^ (52 + extra) ≤ n)
    (hupper : n < 2 ^ (53 + extra)) (k : Nat) :
    nearestMagnitude (n <<< k) 1 = (k + extra) * 2 ^ 52 + roundHalfEven n (2 ^ extra) := by
  have hlog : (n <<< k).log2 - 52 = k + extra := by
    have hlowerBits := two_pow_le_shiftLeft hlower k
    have hupperBits := shiftLeft_lt_two_pow hupper k
    have hpos : n <<< k ≠ 0 := Nat.ne_of_gt (Nat.lt_of_lt_of_le (by positivity) hlowerBits)
    have hbits : (n <<< k).log2 = 52 + extra + k := by
      rw [Nat.log2_eq_iff hpos]
      refine ⟨hlowerBits, ?_⟩
      rwa [Nat.add_right_comm, Nat.add_right_comm 52]
    omega
  have hnum : n <<< k = 2 ^ k * n := by rw [Nat.shiftLeft_eq, Nat.mul_comm]
  rw [nearestMagnitude, Nat.div_one, hlog, Nat.shiftLeft_eq, Nat.one_shiftLeft, hnum, Nat.pow_add,
    roundHalfEven_mul (by positivity)]

/-- An integer of 64 unsigned bits, the first of which is set, becomes a float that is a multiple of 2048. -/
theorem exists_ofDecimal?_eq {n : Nat} (hlower : 2 ^ 63 ≤ n) (hupper : n < 2 ^ 64) :
    ∃ x, ofDecimal? false n 0 = some x ∧ x.position = positionOfInt (roundHalfEven n 2048 * 2048 : Nat) := by
  have hmagnitude : magnitudeOfDecimal n 0 = (1074 + 11) * 2 ^ 52 + roundHalfEven n (2 ^ 11) := by
    rw [magnitudeOfDecimal_eq n (by decide), magnitudeOfRatio]
    exact (congrArg (nearestMagnitude · 1) (by simp)).trans (nearestMagnitude_shiftLeft hlower hupper 1074)
  obtain ⟨hleast, hgreatest⟩ := @roundHalfEven_bounds n 11 hlower hupper
  have hfinite : magnitudeOfDecimal n 0 < infiniteMagnitude := by
    have hinfinite : infiniteMagnitude = 2047 * 2 ^ 52 := rfl
    omega
  let x : Binary64 := ⟨false, magnitudeOfDecimal n 0, Nat.lt_trans hfinite (by decide)⟩
  have hunits : x.units = roundHalfEven n (2 ^ 11) * 2 ^ (1074 + 11) :=
    units_of_magnitude_eq hmagnitude hleast hgreatest
  have hden : (2 : Nat) ^ 11 = 2048 := by decide
  have hunit (k : Nat) : roundHalfEven n (2 ^ 11) * 2 ^ (k + 11) = roundHalfEven n 2048 * 2048 * 1 <<< k := by
    rw [Nat.one_shiftLeft, Nat.pow_add, hden]
    ring
  refine ⟨x, ?_, ?_⟩
  · rw [ofDecimal?, ofMagnitude?, dif_pos hfinite]
  · rw [position, if_neg Bool.false_ne_true, hunits, hunit, positionOfInt, Int.natCast_mul]

end Binary64

end Paging
