import Paging.Binary64.Comparison
import Paging.Proofs.Binary64.Integers

/-!
Comparisons of floats and integers as comparisons of places on the number line. Cutting a float off to an integer
moves it towards zero by less than one, so an integer that differs from the cut off one lies on the same side
of the float, and else what was cut off decides.
-/

namespace Paging

theorem compare_congr_of_lt_iff {p q r s : Int} (hlt : p < q ↔ r < s) (hgt : q < p ↔ s < r) :
    compare p q = compare r s := by
  rcases Int.lt_trichotomy p q with h | h | h
  · rw [Int.compare_eq_lt.mpr h, Int.compare_eq_lt.mpr (hlt.mp h)]
  · rw [Int.compare_eq_eq.mpr h, Int.compare_eq_eq.mpr (by omega)]
  · rw [Int.compare_eq_gt.mpr h, Int.compare_eq_gt.mpr (hgt.mp h)]

namespace Binary64

/-! ### Floats -/

theorem units_lt_iff (x y : Binary64) : x.units < y.units ↔ x.magnitude < y.magnitude := by
  refine ⟨fun h => ?_, units_lt_of_magnitude_lt⟩
  by_contra hle
  rcases Nat.lt_or_eq_of_le (Nat.le_of_not_lt hle) with hgt | heq
  · exact Nat.lt_asymm h (units_lt_of_magnitude_lt hgt)
  · rw [units, units, heq] at h
    exact Nat.lt_irrefl _ h

/-- Places order the floats as their magnitudes under their signs do. -/
theorem position_lt_iff (x y : Binary64) : x.position < y.position ↔ x.signedMagnitude < y.signedMagnitude := by
  have hlt := units_lt_iff x y
  have hgt := units_lt_iff y x
  have hx := units_eq_zero_iff x
  have hy := units_eq_zero_iff y
  unfold position signedMagnitude
  cases x.negative <;> cases y.negative <;> simp only [if_true, Bool.false_eq_true, if_false] <;> omega

theorem compareNumbers?_eq {x y : Binary64} (hx : x.isNaN = false) (hy : y.isNaN = false) :
    x.compareNumbers? y = some (compare x.position y.position) := by
  rw [compareNumbers?, hx, hy, Bool.or_self, if_neg Bool.false_ne_true,
    compare_congr_of_lt_iff (position_lt_iff x y) (position_lt_iff y x)]

/-- All bits order a NaN and a float as their places do, since a NaN is no zero. -/
theorem totalRank_lt_iff {x y : Binary64} (hnan : (x.isNaN || y.isNaN) = true) :
    x.totalRank < y.totalRank ↔ x.signedMagnitude < y.signedMagnitude := by
  have hnonzero : x.magnitude ≠ 0 ∨ y.magnitude ≠ 0 := by
    rw [Bool.or_eq_true] at hnan
    exact hnan.imp (fun h => Nat.ne_zero_of_lt (of_decide_eq_true h)) fun h =>
      Nat.ne_zero_of_lt (of_decide_eq_true h)
  unfold totalRank signedMagnitude
  cases x.negative <;> cases y.negative <;> simp only [if_true, Bool.false_eq_true, if_false] <;> omega

/-- Two floats compare as their places. -/
theorem compareFloats_eq (x y : Binary64) : x.compareFloats y = compare x.position y.position := by
  unfold compareFloats
  cases hnan : x.isNaN || y.isNaN with
  | false =>
    obtain ⟨hx, hy⟩ := Bool.or_eq_false_iff.mp hnan
    rw [compareNumbers?_eq hx hy, Option.getD_some]
  | true =>
    rw [compareNumbers?, hnan, if_pos rfl, Option.getD_none]
    refine compare_congr_of_lt_iff ?_ ?_
    · rw [totalRank_lt_iff hnan, position_lt_iff]
    · rw [totalRank_lt_iff (by rwa [Bool.or_comm]), position_lt_iff]

/-! ### Cutting off -/

section Powers

variable {significand step low n : Nat}

theorem mul_two_pow_lt_shiftLeft (hlt : significand < 2 ^ 53) (h : 53 + step ≤ n) :
    significand * 2 ^ step < 1 <<< n := by
  calc significand * 2 ^ step < 2 ^ 53 * 2 ^ step := Nat.mul_lt_mul_of_pos_right hlt (by positivity)
    _ = 2 ^ (53 + step) := (Nat.pow_add 2 53 step).symm
    _ ≤ 2 ^ n := Nat.pow_le_pow_right (by decide) h
    _ = 1 <<< n := (Nat.one_shiftLeft n).symm

theorem shiftRight_eq_div (k n : Nat) : k >>> n = k / 1 <<< n := by
  rw [Nat.shiftRight_eq_div_pow, Nat.one_shiftLeft]

theorem one_shiftLeft_pos (n : Nat) : 0 < 1 <<< n := by
  rw [Nat.one_shiftLeft]
  positivity

theorem shiftLeft_dvd_mul_two_pow (h : n ≤ step) : 1 <<< n ∣ significand * 2 ^ step := by
  rw [Nat.one_shiftLeft]
  exact Nat.dvd_mul_left_of_dvd (Nat.pow_dvd_pow 2 h) significand

/-- Cutting a number off at a multiple of a power of two clears the low bits of its significand. -/
theorem cutOff_eq (h : n = step + low) :
    significand * 2 ^ step / 1 <<< n * 1 <<< n = (significand - significand % 2 ^ low) * 2 ^ step := by
  subst h
  rw [Nat.one_shiftLeft, Nat.pow_add, Nat.mul_comm significand,
    Nat.mul_div_mul_left _ _ (by positivity : 0 < 2 ^ step), ← Nat.div_mul_self_eq_mod_sub_self]
  ring

/-- The low bits of a magnitude are those of its significand. -/
theorem sub_mod_two_pow (hlow : low ≤ 52) (hle : 2 ^ 52 ≤ significand) :
    step * 2 ^ 52 + significand - (step * 2 ^ 52 + significand) % 2 ^ low =
      step * 2 ^ 52 + (significand - significand % 2 ^ low) ∧ 2 ^ 52 ≤ significand - significand % 2 ^ low := by
  obtain ⟨high, hhigh⟩ := Nat.exists_eq_add_of_le' hlow
  have hmod : (step * 2 ^ 52 + significand) % 2 ^ low = significand % 2 ^ low := by
    rw [hhigh, Nat.pow_add, ← Nat.mul_assoc, Nat.mul_add_mod']
  have hless := Nat.mod_le significand (2 ^ low)
  refine ⟨by omega, ?_⟩
  have hfirst : 2 ^ high ≤ significand / 2 ^ low := by
    rwa [Nat.le_div_iff_mul_le (by positivity), ← Nat.pow_add, ← hhigh]
  rw [← Nat.div_mul_self_eq_mod_sub_self, hhigh, Nat.pow_add]
  exact Nat.mul_le_mul_right _ hfirst

end Powers

theorem units_truncate (x : Binary64) : x.truncate.units = x.units / 1 <<< 1074 * 1 <<< 1074 := by
  obtain ⟨significand, step, hunits, hmagnitude, hlt, hle⟩ := exists_units x
  -- the exponent bits count the first bit of the significand too
  have hexponent : x.magnitude >>> 52 = if significand < 2 ^ 52 then 0 else step + 1 := by
    rw [Nat.shiftRight_eq_div_pow, hmagnitude]
    split <;> omega
  unfold truncate
  dsimp only
  split
  case isTrue hsmall =>
    have hsize : x.units < 1 <<< 1074 := by
      rw [hunits]
      refine mul_two_pow_lt_shiftLeft hlt ?_
      split at hexponent <;> omega
    rw [Nat.div_eq_of_lt hsize, Nat.zero_mul]
    exact (units_eq_zero_iff _).mpr rfl
  case isFalse hone =>
    split
    case isTrue hwhole =>
      rw [hunits, Nat.div_mul_cancel (shiftLeft_dvd_mul_two_pow _)]
      split at hexponent <;> omega
    case isFalse hfraction =>
      have hnormal : 2 ^ 52 ≤ significand := by
        split at hexponent <;> omega
      rw [if_neg (Nat.not_lt.mpr hnormal)] at hexponent
      obtain ⟨hclear, hfirst⟩ := @sub_mod_two_pow significand step (1075 - x.magnitude >>> 52) (by omega) hnormal
      rw [hunits, @cutOff_eq significand step (1075 - x.magnitude >>> 52) 1074 (by omega)]
      refine units_of_magnitude_eq ?_ hfirst (Nat.le_trans (Nat.sub_le _ _) (Nat.le_of_lt hlt))
      rw [← hclear, ← hmagnitude, ← Nat.one_shiftLeft]

theorem negative_truncate (x : Binary64) : x.truncate.negative = x.negative := by
  unfold truncate
  dsimp only
  split
  · rfl
  · split <;> rfl

theorem isNaN_truncate {x : Binary64} (hnan : x.isNaN = false) : x.truncate.isNaN = false := by
  have hle : x.truncate.magnitude ≤ x.magnitude := by
    unfold truncate
    dsimp only
    split
    · exact Nat.zero_le _
    · split
      · exact Nat.le_refl _
      · exact Nat.sub_le _ _
  rw [isNaN, decide_eq_false_iff_not] at hnan ⊢
  omega

/-- A float that is cut off stands at its whole part. -/
theorem position_truncate (x : Binary64) : x.truncate.position = positionOfInt x.wholePart := by
  rw [position, units_truncate, negative_truncate, positionOfInt, wholePart, shiftRight_eq_div]
  cases x.negative with
  | true => rw [if_pos rfl, if_pos rfl, Int.neg_mul, Int.natCast_mul]
  | false => rw [if_neg Bool.false_ne_true, if_neg Bool.false_ne_true, Int.natCast_mul]

theorem wholePart_truncate (x : Binary64) : x.truncate.wholePart = x.wholePart := by
  rw [wholePart, wholePart, negative_truncate, units_truncate, shiftRight_eq_div, shiftRight_eq_div,
    Nat.mul_div_cancel _ (one_shiftLeft_pos 1074)]

theorem positionOfInt_neg (i : Int) : positionOfInt (-i) = -positionOfInt i := Int.neg_mul _ _

theorem div_bounds (n : Nat) {d : Nat} (hd : 0 < d) :
    ((n / d : Nat) : Int) * d ≤ n ∧ (n : Int) < (((n / d : Nat) : Int) + 1) * d := by
  have hlower := Nat.div_mul_le_self n d
  have hupper := Nat.lt_mul_div_succ n hd
  rw [Nat.mul_comm] at hupper
  exact ⟨by exact_mod_cast hlower, by exact_mod_cast hupper⟩

/-- The whole units of a float are those before its point, and less than one more. -/
theorem units_bounds (x : Binary64) :
    positionOfInt (x.units >>> 1074 : Nat) ≤ x.units ∧ x.units < positionOfInt ((x.units >>> 1074 : Nat) + 1) := by
  rw [shiftRight_eq_div]
  exact div_bounds x.units (one_shiftLeft_pos 1074)

/-- A float between integers on both sides of zero is cut off to one between them. -/
theorem wholePart_between {x : Binary64} {i j : Int} (hi : i ≤ 0) (hj : 0 < j) (hlower : positionOfInt i ≤ x.position)
    (hupper : x.position < positionOfInt j) : i ≤ x.wholePart ∧ x.wholePart < j := by
  obtain ⟨hwhole, _⟩ := x.units_bounds
  unfold position at hlower hupper
  unfold wholePart
  cases hsign : x.negative with
  | true =>
    rw [hsign, if_pos rfl] at hlower
    rw [if_pos rfl]
    have hle : positionOfInt i ≤ positionOfInt (-(x.units >>> 1074 : Nat)) := by
      rw [positionOfInt_neg]
      omega
    have := strictMono_positionOfInt.le_iff_le.mp hle
    omega
  | false =>
    rw [hsign, if_neg Bool.false_ne_true] at hupper
    rw [if_neg Bool.false_ne_true]
    have := strictMono_positionOfInt.lt_iff_lt.mp (Int.lt_of_le_of_lt hwhole hupper)
    omega

/-- Cutting a float off moves it by less than one. -/
theorem position_near (x : Binary64) : positionOfInt (x.wholePart - 1) < x.position ∧
    x.position < positionOfInt (x.wholePart + 1) := by
  obtain ⟨hlower, hupper⟩ := x.units_bounds
  unfold position wholePart
  generalize (x.units >>> 1074 : Nat) = whole at hlower hupper ⊢
  cases x.negative with
  | true =>
    rw [if_pos rfl, if_pos rfl]
    have hbelow : positionOfInt (-(whole : Int) - 1) = -positionOfInt (whole + 1) := by
      rw [← positionOfInt_neg, Int.neg_add]
      rfl
    have habove : positionOfInt (-(whole : Int)) < positionOfInt (-(whole : Int) + 1) :=
      strictMono_positionOfInt (by omega)
    rw [positionOfInt_neg] at habove
    omega
  | false =>
    rw [if_neg Bool.false_ne_true, if_neg Bool.false_ne_true]
    have hbelow : positionOfInt ((whole : Int) - 1) < positionOfInt whole := strictMono_positionOfInt (by omega)
    omega

/-- Next to a float an integer compares as with its whole part. -/
theorem compare_wholePart (i : Int) (x : Binary64) :
    (compare i x.wholePart).then (compare (positionOfInt x.wholePart) x.position) =
      compare (positionOfInt i) x.position := by
  obtain ⟨hlower, hupper⟩ := x.position_near
  rcases Int.lt_trichotomy i x.wholePart with hless | rfl | hgreater
  · have hplace : positionOfInt i < x.position := by
      refine Int.lt_of_le_of_lt (strictMono_positionOfInt.monotone ?_) hlower
      omega
    rw [Int.compare_eq_lt.mpr hless, Int.compare_eq_lt.mpr hplace]
    rfl
  · rw [Std.compare_self]
    rfl
  · have hplace : x.position < positionOfInt i := by
      refine Int.lt_of_lt_of_le hupper (strictMono_positionOfInt.monotone ?_)
      omega
    rw [Int.compare_eq_gt.mpr hgreater, Int.compare_eq_gt.mpr hplace]
    rfl

/-! ### Integers -/

theorem compare_toInt (i j : Int64) : compare i j = compare i.toInt j.toInt := by
  change compareOfLessAndEq i j = compareOfLessAndEq i.toInt j.toInt
  simp only [compareOfLessAndEq, Int64.lt_iff_toInt_lt, Int64.toInt_inj]

theorem toInt_toInt64 {x : Binary64} (hnan : x.isNaN = false) (hlower : -2 ^ 63 ≤ x.wholePart)
    (hupper : x.wholePart < 2 ^ 63) : x.toInt64.toInt = x.wholePart := by
  rw [toInt64, hnan, if_neg Bool.false_ne_true, Int64.toInt_ofInt_of_le (by omega) (by omega)]
  omega

theorem position_int64End : int64End.position = positionOfInt (2 ^ 63) := by
  decide +kernel

theorem position_negate (x : Binary64) : x.negate.position = -x.position := by
  unfold position negate units
  cases x.negative with
  | true => rw [Bool.not_true, if_neg Bool.false_ne_true, if_pos rfl, Int.neg_neg]
  | false => rw [Bool.not_false, if_neg Bool.false_ne_true, if_pos rfl]

theorem compare_positionOfInt (i j : Int) : compare (positionOfInt i) (positionOfInt j) = compare i j :=
  compare_congr_of_lt_iff strictMono_positionOfInt.lt_iff_lt strictMono_positionOfInt.lt_iff_lt

/-- The places of integers of 64 bits. -/
theorem positionOfInt_bounds (i : Int64) : positionOfInt (-2 ^ 63) ≤ positionOfInt i.toInt ∧
    positionOfInt i.toInt < positionOfInt (2 ^ 63) :=
  ⟨strictMono_positionOfInt.monotone i.le_toInt, strictMono_positionOfInt i.toInt_lt⟩

/-- A NaN stands beyond the places of integers, on the side of its sign. -/
theorem compare_position_of_isNaN (i : Int64) {x : Binary64} (hnan : x.isNaN = true) :
    compare (positionOfInt i.toInt) x.position = if x.negative then .gt else .lt := by
  obtain ⟨hlower, hupper⟩ := positionOfInt_bounds i
  have hend : (int64End.units : Int) = positionOfInt (2 ^ 63) := position_int64End
  have hbeyond : int64End.units < x.units :=
    units_lt_of_magnitude_lt (Nat.lt_trans (by decide) (of_decide_eq_true hnan))
  rw [positionOfInt_neg] at hlower
  unfold position
  cases x.negative with
  | true =>
    rw [if_pos rfl, if_pos rfl, Int.compare_eq_gt]
    omega
  | false =>
    rw [if_neg Bool.false_ne_true, if_neg Bool.false_ne_true, Int.compare_eq_lt]
    omega

/-- An integer and a float compare as their places, the integer not being rounded for it. -/
theorem compareInt_eq (i : Int64) (x : Binary64) :
    compareInt i x = compare (positionOfInt i.toInt) x.position := by
  cases hnan : x.isNaN with
  | true => rw [compareInt, if_pos hnan, compare_position_of_isNaN i hnan]
  | false =>
    obtain ⟨hlower, hupper⟩ := positionOfInt_bounds i
    have habove : x.compareNumbers? int64End = some (compare x.position (positionOfInt (2 ^ 63))) := by
      rw [compareNumbers?_eq hnan (by decide), position_int64End]
    have hbelow : x.compareNumbers? int64End.negate = some (compare x.position (positionOfInt (-2 ^ 63))) := by
      rw [compareNumbers?_eq hnan (by decide), position_negate, position_int64End, positionOfInt_neg]
    simp only [compareInt, hnan, Bool.false_eq_true, if_false, habove, hbelow, Option.any_some, Int.isGE_compare,
      Option.some_inj, Int.compare_eq_lt]
    split
    case isTrue hge =>
      rw [Int.compare_eq_lt.mpr (Int.lt_of_lt_of_le hupper hge)]
    case isFalse hless =>
      split
      case isTrue hless =>
        rw [Int.compare_eq_gt.mpr (Int.lt_of_lt_of_le hless hlower)]
      case isFalse hge =>
        -- within the range of the integers the float is cut off to one of them
        obtain ⟨hfirst, hlast⟩ := wholePart_between (by decide) (by decide) (Int.not_lt.mp hge)
          (Int.not_le.mp hless)
        have hwhole : x.truncate.toInt64.toInt = x.wholePart := by
          rw [toInt_toInt64 (isNaN_truncate hnan), wholePart_truncate]
          · rwa [wholePart_truncate]
          · rwa [wholePart_truncate]
        rw [compare_toInt, hwhole, compareFloats_eq, position_truncate, compare_wholePart]

end Binary64

end Paging
