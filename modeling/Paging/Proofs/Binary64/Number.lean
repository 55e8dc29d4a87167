import Mathlib.Algebra.Order.Field.Power
import Mathlib.Algebra.Order.Field.Rat
import Mathlib.Order.WithBotTop
import Mathlib.Tactic.FieldSimp
import Paging.Proofs.Binary64.Position

/-!
The numbers that floats stand for: rationals and the two infinities, read off the exponent and the fraction
as the format defines them. `Binary64.position` is the same reading in units of the smallest positive float.
So the number at a place increases with the place, from one infinity to the other, and the NaN stand beyond
the infinities.
-/

namespace Paging.Binary64

/-- The absolute value that the exponent and the fraction of a finite float stand for. -/
def absoluteValue (x : Binary64) : ℚ :=
  let exponent : Nat := x.magnitude / 2 ^ 52
  let fraction : Nat := x.magnitude % 2 ^ 52
  if exponent = 0 then fraction / 2 ^ 52 * 2 ^ (-1022 : ℤ)
  else (1 + fraction / 2 ^ 52) * 2 ^ ((exponent : ℤ) - 1023)

/-- The number that a float stands for, unless it is a NaN. -/
def number? (x : Binary64) : Option (WithBotTop ℚ) :=
  if x.isNaN then none
  else if x.isFinite then some (.coe (if x.negative then -x.absoluteValue else x.absoluteValue))
  else some (if x.negative then ⊥ else ⊤)

theorem absoluteValue_eq (x : Binary64) : x.absoluteValue = x.units / 2 ^ 1074 := by
  have hunit : (2 : ℚ) ^ 1074 = 2 ^ 52 * 2 ^ 1022 := by rw [← pow_add]
  unfold absoluteValue units
  simp only [Nat.shiftLeft_eq, Nat.shiftRight_eq_div_pow, Nat.one_mul]
  split
  case isTrue =>
    have hleast : (2 : ℚ) ^ (-1022 : ℤ) = (2 ^ 1022)⁻¹ := by
      rw [zpow_neg]
      rfl
    rw [hunit, hleast]
    field_simp
  case isFalse hnormal =>
    obtain ⟨step, hstep⟩ := Nat.exists_eq_succ_of_ne_zero hnormal
    have hpower : (2 : ℚ) ^ (((step + 1 : ℕ) : ℤ) - 1023) = 2 ^ step / 2 ^ 1022 := by
      have hexponent : ((step + 1 : ℕ) : ℤ) - 1023 = (step : ℤ) - (1022 : ℕ) := by omega
      rw [hexponent, zpow_sub₀ (by decide : (2 : ℚ) ≠ 0), zpow_natCast, zpow_natCast]
    rw [hstep, Nat.succ_eq_add_one, hpower, hunit, Nat.add_sub_cancel]
    push_cast
    field_simp
    norm_num

/-! ### Numbers by their places -/

def infinity : Binary64 := ⟨false, infiniteMagnitude, by decide⟩

theorem units_infinity : infinity.units = 2 ^ (1024 + 1074) := by
  rw [← Nat.one_shiftLeft]
  decide +kernel

/-- The number at a place between the infinities. -/
def numberAt (place : Int) : WithBotTop ℚ :=
  if place.natAbs < infinity.units then .coe (place / 2 ^ 1074)
  else if place < 0 then ⊥ else ⊤

theorem numberAt_of_lt {place : Int} (h : place.natAbs < infinity.units) :
    numberAt place = .coe (place / 2 ^ 1074) := if_pos h

theorem strictMonoOn_numberAt : StrictMonoOn numberAt {place | place.natAbs ≤ infinity.units} := by
  intro p hp q hq hlt
  change p.natAbs ≤ _ at hp
  change q.natAbs ≤ _ at hq
  unfold numberAt
  by_cases hpfinite : p.natAbs < infinity.units
  · rw [if_pos hpfinite]
    by_cases hqfinite : q.natAbs < infinity.units
    · rw [if_pos hqfinite, WithBotTop.coe_lt_coe]
      exact div_lt_div_of_pos_right (Int.cast_lt.mpr hlt) (by positivity)
    · rw [if_neg hqfinite, if_neg (by omega)]
      exact lt_top_iff_ne_top.mpr (WithBotTop.coe_ne_top _)
  · rw [if_neg hpfinite, if_pos (by omega), bot_lt_iff_ne_bot]
    split
    · exact WithBotTop.coe_ne_bot _
    · rw [if_neg (by omega)]
      exact WithBotTop.top_ne_bot

theorem units_eq_infinity {x : Binary64} (hnan : x.isNaN = false) (hfinite : x.isFinite = false) :
    x.units = infinity.units := by
  have hmagnitude : x.magnitude = infinity.magnitude := by
    simp only [isNaN, isFinite, decide_eq_false_iff_not] at hnan hfinite
    exact Nat.le_antisymm (Nat.le_of_not_lt hnan) (Nat.le_of_not_lt hfinite)
  rw [units, hmagnitude]
  rfl

theorem units_lt_infinity {x : Binary64} (hfinite : x.isFinite = true) : x.units < infinity.units :=
  units_lt_of_magnitude_lt (of_decide_eq_true hfinite)

theorem infinity_lt_units {x : Binary64} (hnan : x.isNaN = true) : infinity.units < x.units :=
  units_lt_of_magnitude_lt (of_decide_eq_true hnan)

theorem natAbs_position_le {x : Binary64} (hnan : x.isNaN = false) :
    x.position.natAbs ≤ infinity.units := by
  rw [natAbs_position]
  cases hfinite : x.isFinite with
  | true => exact Nat.le_of_lt (units_lt_infinity hfinite)
  | false => exact Nat.le_of_eq (units_eq_infinity hnan hfinite)

/-- A float stands for the number at its position. -/
theorem number?_eq {x : Binary64} (hnan : x.isNaN = false) : x.number? = some (numberAt x.position) := by
  unfold number?
  rw [hnan, if_neg Bool.false_ne_true]
  cases hfinite : x.isFinite with
  | true =>
    have hlt : x.position.natAbs < infinity.units := by
      rw [natAbs_position]
      exact units_lt_infinity hfinite
    rw [if_pos rfl, numberAt_of_lt hlt, absoluteValue_eq, position]
    cases x.negative with
    | true => simp [neg_div]
    | false => simp
  | false =>
    have hunits := units_eq_infinity hnan hfinite
    have hpos : 0 < infinity.units := by
      rw [units_infinity]
      positivity
    rw [if_neg Bool.false_ne_true, numberAt, natAbs_position, hunits, if_neg (Nat.lt_irrefl _), position, hunits]
    cases x.negative with
    | true => rw [if_pos rfl, if_pos rfl, if_pos (by omega)]
    | false => rw [if_neg Bool.false_ne_true, if_neg Bool.false_ne_true, if_neg (by omega)]

/-! ### Integers -/

theorem natAbs_mul_shiftLeft_lt {i : Int} {m : Nat} (h : i.natAbs < 2 ^ m) (k : Nat) :
    (i * (1 <<< k : Nat)).natAbs < 2 ^ (m + k) := by
  rw [Int.natAbs_mul, Int.natAbs_natCast, Nat.one_shiftLeft, Nat.pow_add]
  exact Nat.mul_lt_mul_of_pos_right h (by positivity)

theorem mul_shiftLeft_div (i : Int) (k : Nat) : ((i * (1 <<< k : Nat) : Int) : ℚ) / 2 ^ k = i := by
  rw [Nat.one_shiftLeft]
  push_cast
  exact mul_div_cancel_right₀ _ (by positivity)

theorem natAbs_positionOfInt_lt {i : Int} (h : i.natAbs < 2 ^ 1024) :
    (positionOfInt i).natAbs < infinity.units := by
  rw [units_infinity]
  exact natAbs_mul_shiftLeft_lt h 1074

/-- The number at the place of an integer is that integer. -/
theorem numberAt_positionOfInt {i : Int} (h : i.natAbs < 2 ^ 1024) :
    numberAt (positionOfInt i) = .coe (i : ℚ) := by
  rw [numberAt_of_lt (natAbs_positionOfInt_lt h), positionOfInt, mul_shiftLeft_div]

end Paging.Binary64
