import Paging.Proofs.Binary64.Number
import Paging.Proofs.Scalar.Equality

/-!
Integers and floats as sort values. They compare by the numbers that they stand for, none of which is rounded
for it, and a NaN, which stands for none, comes before or after all of them by its sign.
-/

namespace Paging.Scalar

open Binary64

/-- The number that an integer or a float stands for. -/
def number? : Scalar → Option (WithBotTop ℚ)
  | .int value => some (.coe (value.toInt : ℚ))
  | .float value => value.number?
  | _ => none

theorem natAbs_toInt_lt (i : Int64) : i.toInt.natAbs < 2 ^ 1024 := by
  have hlower := i.le_toInt
  have hupper := i.toInt_lt
  have hbits : i.toInt.natAbs < 2 ^ 64 := by omega
  exact Nat.lt_of_lt_of_le hbits (pow_le_pow_right₀ (by decide) (by decide))

/-- A number is found at its position, which is not beyond the infinities. -/
theorem exists_position_of_number? {a : Scalar} {p : WithBotTop ℚ} (h : a.number? = some p) :
    ∃ place, a.position? = some place ∧ place.natAbs ≤ infinity.units ∧ numberAt place = p := by
  cases a with
  | int i =>
    obtain rfl := Option.some.inj h
    have hbound := natAbs_toInt_lt i
    exact ⟨_, rfl, Nat.le_of_lt (natAbs_positionOfInt_lt hbound), numberAt_positionOfInt hbound⟩
  | float x =>
    change x.number? = some p at h
    have hnan : x.isNaN = false := by
      by_contra hnan
      rw [Binary64.number?, if_pos (Bool.eq_true_of_not_eq_false hnan)] at h
      cases h
    rw [number?_eq hnan] at h
    exact ⟨_, rfl, natAbs_position_le hnan, Option.some.inj h⟩
  | _ => cases h

/-- Numbers compare as what they stand for. -/
theorem compare_of_number? {a b : Scalar} {p q : WithBotTop ℚ} (ha : a.number? = some p)
    (hb : b.number? = some q) : compare a b = compare p q := by
  obtain ⟨first, hfirst, hfirstLe, rfl⟩ := exists_position_of_number? ha
  obtain ⟨second, hsecond, hsecondLe, rfl⟩ := exists_position_of_number? hb
  calc compare a b = compare first second := compare_of_position? hfirst hsecond
    _ = cmp first second := (cmp_eq_compare _ _).symm
    _ = cmp (numberAt first) (numberAt second) :=
      (strictMonoOn_numberAt.cmp_map_eq hfirstLe hsecondLe).symm
    _ = compare (numberAt first) (numberAt second) := cmp_eq_compare _ _

theorem compare_nan {nan : Binary64} (hnan : nan.isNaN = true) {a : Scalar} {p : WithBotTop ℚ}
    (ha : a.number? = some p) : compare (float nan) a = if nan.negative then .lt else .gt := by
  obtain ⟨place, hplace, hle, _⟩ := exists_position_of_number? ha
  have hbeyond := infinity_lt_units hnan
  rw [compare_of_position? rfl hplace, position]
  cases nan.negative with
  | true =>
    rw [if_pos rfl, if_pos rfl, Int.compare_eq_lt]
    omega
  | false =>
    rw [if_neg Bool.false_ne_true, if_neg Bool.false_ne_true, Int.compare_eq_gt]
    omega

/--
Integers and floats compare as the rationals and infinities that they stand for, whichever of them comes
first. A NaN is less than all of them if it is negative, and else greater.
-/
theorem compare_eq_compare_number (i : Int64) (x y : Binary64) (hx : x.isNaN = false) (hy : y.isNaN = false) :
    ∃ p q, x.number? = some p ∧ y.number? = some q ∧
      compare (int i) (float x) = compare (.coe (i.toInt : ℚ)) p ∧
      compare (float x) (int i) = compare p (.coe (i.toInt : ℚ)) ∧
      compare (float x) (float y) = compare p q ∧
      ∀ nan : Binary64, nan.isNaN = true → ∀ number ∈ [int i, float x],
        compare (float nan) number = if nan.negative then .lt else .gt := by
  have hfirst := number?_eq hx
  have hsecond := number?_eq hy
  have hint : (int i).number? = some (.coe (i.toInt : ℚ)) := rfl
  have hfloat : (float x).number? = some (numberAt x.position) := hfirst
  refine ⟨_, _, hfirst, hsecond, compare_of_number? hint hfirst, compare_of_number? hfirst hint,
    compare_of_number? hfirst hsecond, fun nan hnan number hnumber => ?_⟩
  simp only [List.mem_cons, List.not_mem_nil, or_false] at hnumber
  rcases hnumber with rfl | rfl
  · exact compare_nan hnan hint
  · exact compare_nan hnan hfloat

/-- The integer between two neighbouring floats compares with them as itself, and it follows a negative NaN. -/
theorem compare_between_floats :
    let between : Int64 := 9007199254740993
    let below := Binary64.ofBits 0x4340000000000000
    let above := Binary64.ofBits 0x4340000000000001
    let nan := Binary64.ofBits 0xFFF8000000000001
    below.isNaN = false ∧ above.isNaN = false ∧ nan.isNaN = true ∧
      compare (int between) (float below) = .gt ∧ compare (float below) (float above) = .lt ∧
      compare (float nan) (int between) = .lt := by
  intro between below above nan
  have hbelow : below.isNaN = false := by decide
  have habove : above.isNaN = false := by decide
  have hnan : nan.isNaN = true := by decide
  obtain ⟨p, q, hp, hq, hwhole, _, hreal, hends⟩ := compare_eq_compare_number between below above hbelow habove
  have hp' : below.number? = some (.coe 9007199254740992) := by decide +kernel
  have hq' : above.number? = some (.coe 9007199254740994) := by decide +kernel
  obtain rfl := Option.some.inj (hp.symm.trans hp')
  obtain rfl := Option.some.inj (hq.symm.trans hq')
  refine ⟨hbelow, habove, hnan, hwhole.trans ?_, hreal.trans ?_, ?_⟩
  · decide +kernel
  · decide +kernel
  · exact hends nan hnan (int between) List.mem_cons_self

end Paging.Scalar
