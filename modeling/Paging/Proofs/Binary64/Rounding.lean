import Paging.Binary64.Rounding
import Mathlib.Tactic.Positivity
import Mathlib.Tactic.Ring

/-!
Laws of correct rounding. Rounding depends on the quotient only, every float is a fixed point of it, and
the cut-offs of `Binary64.magnitudeOfDecimal` agree with it, so a decimal may be written with any number
of zeros at its end.
-/

namespace Paging

theorem roundHalfEven_mul {c : Nat} (hc : 0 < c) (num den : Nat) :
    roundHalfEven (c * num) (c * den) = roundHalfEven num den := by
  have htwice : 2 * (c * num % (c * den)) = c * (2 * (num % den)) := by
    rw [Nat.mul_mod_mul_left]
    ring
  simp only [roundHalfEven, Nat.mul_div_mul_left _ _ hc, htwice, Nat.mul_lt_mul_left hc,
    Nat.mul_right_inj (Nat.ne_of_gt hc)]

/-- A quotient without a remainder is not rounded. -/
theorem roundHalfEven_exact {den : Nat} (hden : 0 < den) (n : Nat) :
    roundHalfEven (n * den) den = n := by
  simp [roundHalfEven, Nat.mul_div_cancel _ hden, hden]

theorem div_le_roundHalfEven (num den : Nat) : num / den ≤ roundHalfEven num den := by
  unfold roundHalfEven
  dsimp only
  split <;> omega

theorem mul_shiftLeft (c n k : Nat) : (c * n) <<< k = c * (n <<< k) := by
  rw [Nat.shiftLeft_eq, Nat.shiftLeft_eq, Nat.mul_assoc]

theorem two_pow_le_shiftLeft {m n : Nat} (h : 2 ^ m ≤ n) (k : Nat) : 2 ^ (m + k) ≤ n <<< k := by
  rw [Nat.shiftLeft_eq, Nat.pow_add]
  exact Nat.mul_le_mul_right _ h

theorem shiftLeft_lt_two_pow {m n : Nat} (h : n < 2 ^ m) (k : Nat) : n <<< k < 2 ^ (m + k) := by
  rw [Nat.shiftLeft_eq, Nat.pow_add]
  exact Nat.mul_lt_mul_of_pos_right h (by positivity)

theorem two_pow_le_ten_pow {m n : Nat} (h : m ≤ 3 * n) : 2 ^ m ≤ 10 ^ n := by
  calc 2 ^ m ≤ 2 ^ (3 * n) := Nat.pow_le_pow_right (by decide) h
    _ = 8 ^ n := Nat.pow_mul ..
    _ ≤ 10 ^ n := Nat.pow_le_pow_left (by decide) n

namespace Binary64

/-! ### Rounding to magnitudes -/

theorem nearestMagnitude_mul {c : Nat} (hc : 0 < c) (num den : Nat) :
    nearestMagnitude (c * num) (c * den) = nearestMagnitude num den := by
  simp only [nearestMagnitude, Nat.mul_div_mul_left _ _ hc, mul_shiftLeft, roundHalfEven_mul hc]

/-- Quotients below a half round to zero. -/
theorem nearestMagnitude_eq_zero {num den : Nat} (h : 2 * num < den) : nearestMagnitude num den = 0 := by
  have hquotient : num / den = 0 := Nat.div_eq_of_lt (by omega)
  have hrest : num % den = num := Nat.mod_eq_of_lt (by omega)
  simp [nearestMagnitude, roundHalfEven, hquotient, hrest, h]

/-- Quotients that have a significand of 53 bits are not rounded. -/
theorem nearestMagnitude_exact {significand step den : Nat} (hden : 0 < den) (hlt : significand < 2 ^ 53)
    (hle : step ≠ 0 → 2 ^ 52 ≤ significand) :
    nearestMagnitude (significand * 2 ^ step * den) den = step * 2 ^ 52 + significand := by
  have hlog : (significand * 2 ^ step).log2 - 52 = step := by
    by_cases hstep : step = 0
    · have : significand.log2 < 53 := by
        by_cases hzero : significand = 0
        · rw [hzero]; decide
        · exact (Nat.log2_lt hzero).mpr hlt
      rw [hstep, Nat.pow_zero, Nat.mul_one]
      omega
    · have hle := hle hstep
      have hpos : significand * 2 ^ step ≠ 0 :=
        Nat.ne_of_gt (Nat.mul_pos (Nat.lt_of_lt_of_le (by decide) hle) (by positivity))
      have : (significand * 2 ^ step).log2 = 52 + step := by
        rw [Nat.log2_eq_iff hpos]
        refine ⟨?_, ?_⟩
        · rw [Nat.pow_add]
          exact Nat.mul_le_mul_right _ hle
        · rw [Nat.add_right_comm, Nat.pow_add]
          exact Nat.mul_lt_mul_of_pos_right hlt (by positivity)
      omega
  have hnum : significand * 2 ^ step * den = significand * (den * 2 ^ step) := by ring
  rw [nearestMagnitude, Nat.mul_div_cancel _ hden, hlog, Nat.shiftLeft_eq, Nat.shiftLeft_eq, hnum,
    roundHalfEven_exact (Nat.mul_pos hden (by positivity))]

/-- The significand of a float and the step its magnitude has it at. -/
theorem exists_units (x : Binary64) :
    ∃ significand step, x.units = significand * 2 ^ step ∧
      x.magnitude = step * 2 ^ 52 + significand ∧ significand < 2 ^ 53 ∧
      (step ≠ 0 → 2 ^ 52 ≤ significand) := by
  have hsplit := Nat.div_add_mod x.magnitude (2 ^ 52)
  have hfraction : x.magnitude % 2 ^ 52 < 2 ^ 52 := Nat.mod_lt _ (by decide)
  unfold units
  simp only [Nat.shiftLeft_eq, Nat.shiftRight_eq_div_pow, Nat.one_mul]
  split
  case isTrue h => exact ⟨x.magnitude % 2 ^ 52, 0, by simp, by omega, by omega, by omega⟩
  case isFalse h =>
    exact ⟨2 ^ 52 + x.magnitude % 2 ^ 52, x.magnitude / 2 ^ 52 - 1, rfl, by omega, by omega, by omega⟩

theorem units_lt (x : Binary64) {k : Nat} (hk : 2100 ≤ k) : x.units < 2 ^ k := by
  obtain ⟨significand, step, hunits, hmagnitude, hlt, hle⟩ := exists_units x
  have hbits : x.magnitude < 2 ^ 63 := x.magnitude_lt
  calc x.units = significand * 2 ^ step := hunits
    _ < 2 ^ 53 * 2 ^ step := Nat.mul_lt_mul_of_pos_right hlt (by positivity)
    _ = 2 ^ (53 + step) := (Nat.pow_add ..).symm
    _ ≤ 2 ^ k := Nat.pow_le_pow_right (by decide) (by omega)

/-- The units of a float round to its own magnitude. -/
theorem nearestMagnitude_units (x : Binary64) {den : Nat} (hden : 0 < den) :
    nearestMagnitude (x.units * den) den = x.magnitude := by
  obtain ⟨significand, step, hunits, hmagnitude, hlt, hle⟩ := exists_units x
  rw [hunits, nearestMagnitude_exact hden hlt hle, hmagnitude]

/-- Quotients past the finite floats round to a magnitude past the finite ones. -/
theorem infiniteMagnitude_le_nearestMagnitude {num den k : Nat} (hk : 2098 ≤ k) (h : 2 ^ k ≤ num / den) :
    infiniteMagnitude ≤ nearestMagnitude num den := by
  have hpos : num / den ≠ 0 := Nat.ne_of_gt (Nat.lt_of_lt_of_le (by positivity) h)
  have hlog : k ≤ (num / den).log2 := (Nat.le_log2 hpos).mpr h
  have hhalf : 2 ^ 52 ≤ num / (den * 2 ^ ((num / den).log2 - 52)) := by
    rw [← Nat.div_div_eq_div_mul, Nat.le_div_iff_mul_le (by positivity), ← Nat.pow_add]
    rw [show 52 + ((num / den).log2 - 52) = (num / den).log2 by omega]
    exact Nat.log2_self_le hpos
  have hround := div_le_roundHalfEven num (den * 2 ^ ((num / den).log2 - 52))
  have hinfinite : infiniteMagnitude = 2047 * 2 ^ 52 := rfl
  simp only [nearestMagnitude, Nat.shiftLeft_eq]
  omega

/-! ### Rounding of decimals -/

/-- The magnitude nearest to `digits * 10 ^ up / 10 ^ down`. -/
def magnitudeOfRatio (digits up down : Nat) : Nat :=
  nearestMagnitude ((digits * 10 ^ up) <<< 1074) (10 ^ down)

theorem magnitudeOfRatio_add (digits up down k : Nat) :
    magnitudeOfRatio digits (up + k) (down + k) = magnitudeOfRatio digits up down := by
  have hnum : digits * 10 ^ (up + k) = 10 ^ k * (digits * 10 ^ up) := by ring
  have hden : 10 ^ (down + k) = 10 ^ k * 10 ^ down := by ring
  rw [magnitudeOfRatio, hnum, hden, mul_shiftLeft, nearestMagnitude_mul (by positivity),
    magnitudeOfRatio]

theorem magnitudeOfRatio_congr {digits up down up' down' : Nat} (h : up + down' = up' + down) :
    magnitudeOfRatio digits up down = magnitudeOfRatio digits up' down' := by
  rw [← magnitudeOfRatio_add digits up down down', ← magnitudeOfRatio_add digits up' down' down, h,
    Nat.add_comm down' down]

theorem magnitudeOfRatio_mul_pow (digits k up down : Nat) :
    magnitudeOfRatio (digits * 10 ^ k) up down = magnitudeOfRatio digits (k + up) down := by
  rw [magnitudeOfRatio, magnitudeOfRatio, Nat.mul_assoc, ← Nat.pow_add]

theorem infiniteMagnitude_le_magnitudeOfRatio {digits up : Nat} (hdigits : digits ≠ 0) (hup : 400 < up) :
    infiniteMagnitude ≤ magnitudeOfRatio digits up 0 := by
  have hlarge : 2 ^ 1200 ≤ digits * 10 ^ up := by
    calc 2 ^ 1200 ≤ 10 ^ up := two_pow_le_ten_pow (by omega)
      _ ≤ digits * 10 ^ up := Nat.le_mul_of_pos_left _ (Nat.pos_of_ne_zero hdigits)
  apply infiniteMagnitude_le_nearestMagnitude (by decide : 2098 ≤ 1200 + 1074)
  rw [Nat.pow_zero, Nat.div_one]
  exact two_pow_le_shiftLeft hlarge 1074

/-- Decimals that are settled as too small from their size do round to zero. -/
theorem magnitudeOfRatio_of_small {digits down : Nat} (h : 400 + digits.log2 < down) :
    magnitudeOfRatio digits 0 down = 0 := by
  apply nearestMagnitude_eq_zero
  have hdigits : 2 * digits < 2 ^ (digits.log2 + 2) := by
    have : digits < 2 ^ (digits.log2 + 1) := Nat.lt_log2_self
    rw [Nat.pow_succ]
    omega
  calc 2 * (digits * 10 ^ 0) <<< 1074 = (2 * digits) <<< 1074 := by
        rw [Nat.pow_zero, Nat.mul_one, mul_shiftLeft]
    _ < 2 ^ (digits.log2 + 2 + 1074) := shiftLeft_lt_two_pow hdigits 1074
    _ ≤ 10 ^ down := two_pow_le_ten_pow (by omega)

theorem magnitudeOfDecimal_zero (exponent : Int) : magnitudeOfDecimal 0 exponent = 0 := by
  rw [magnitudeOfDecimal.eq_def, if_pos (Or.inl rfl)]

theorem magnitudeOfDecimal_of_large {digits : Nat} {exponent : Int} (hdigits : digits ≠ 0)
    (h : 400 < exponent) : magnitudeOfDecimal digits exponent = infiniteMagnitude := by
  rw [magnitudeOfDecimal.eq_def, if_neg (by omega), if_pos h]

/-- But for exponents that are certainly too large, a decimal is rounded as the ratio it is. -/
theorem magnitudeOfDecimal_eq {exponent : Int} (digits : Nat) (h : exponent ≤ 400) :
    magnitudeOfDecimal digits exponent =
      magnitudeOfRatio digits exponent.toNat (-exponent).toNat := by
  rw [magnitudeOfDecimal.eq_def, if_neg (by omega : ¬400 < exponent)]
  split
  case isTrue hsmall =>
    rcases hsmall with rfl | hsmall
    · exact (nearestMagnitude_eq_zero (by simp)).symm
    · rw [show exponent.toNat = 0 by omega, magnitudeOfRatio_of_small (by omega)]
  case isFalse =>
    cases exponent with
    | ofNat e =>
      rw [show (-Int.ofNat e).toNat = 0 by simp, magnitudeOfRatio, Nat.pow_zero]
      rfl
    | negSucc e =>
      rw [show (Int.negSucc e).toNat = 0 by rfl, magnitudeOfRatio, Nat.pow_zero, Nat.mul_one]
      rfl

theorem exponent_le_of_lt {digits : Nat} {exponent : Int} (hdigits : digits ≠ 0)
    (h : magnitudeOfDecimal digits exponent < infiniteMagnitude) : exponent ≤ 400 := by
  by_contra hlarge
  rw [magnitudeOfDecimal_of_large hdigits (by omega)] at h
  exact absurd h (Nat.lt_irrefl _)

theorem magnitudeOfDecimal_mul_pow_of_le {digits k : Nat} {exponent : Int} (h : exponent + k ≤ 400) :
    magnitudeOfDecimal (digits * 10 ^ k) exponent = magnitudeOfDecimal digits (exponent + k) := by
  rw [magnitudeOfDecimal_eq _ (by omega), magnitudeOfDecimal_eq _ h, magnitudeOfRatio_mul_pow]
  exact magnitudeOfRatio_congr (by omega)

/-- Zeros at the end of a decimal's digits stand for a larger exponent. -/
theorem magnitudeOfDecimal_mul_pow {digits k : Nat} {exponent : Int}
    (h : magnitudeOfDecimal (digits * 10 ^ k) exponent < infiniteMagnitude ∨
      magnitudeOfDecimal digits (exponent + k) < infiniteMagnitude) :
    magnitudeOfDecimal (digits * 10 ^ k) exponent = magnitudeOfDecimal digits (exponent + k) := by
  rcases Nat.eq_zero_or_pos digits with rfl | hpos
  · rw [Nat.zero_mul, magnitudeOfDecimal_zero, magnitudeOfDecimal_zero]
  have hne : digits ≠ 0 := Nat.ne_of_gt hpos
  have hproduct : digits * 10 ^ k ≠ 0 := Nat.ne_of_gt (Nat.mul_pos hpos (by positivity))
  apply magnitudeOfDecimal_mul_pow_of_le
  rcases h with h | h
  · have hexponent := exponent_le_of_lt hproduct h
    rw [magnitudeOfDecimal_eq _ hexponent, magnitudeOfRatio_mul_pow] at h
    by_contra hlarge
    have hratio : magnitudeOfRatio digits (k + exponent.toNat) (-exponent).toNat =
        magnitudeOfRatio digits (exponent + k).toNat 0 := magnitudeOfRatio_congr (by omega)
    rw [hratio] at h
    exact absurd (infiniteMagnitude_le_magnitudeOfRatio hne (by omega)) (Nat.not_le_of_lt h)
  · exact exponent_le_of_lt hne h

end Binary64

end Paging
