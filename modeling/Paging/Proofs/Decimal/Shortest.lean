import Paging.Decimal.Shortest
import Paging.Proofs.Binary64.Rounding

/-!
The shortest decimal of a float reads back as that float. Its digits stay below `10 ^ 768`: the search
goes from coarse grids to fine ones, and stops no later than at the first grid that the float is a point
of.
-/

namespace Paging.Decimal

open Binary64

/-- A decimal that is a float exactly reads back as that float. -/
theorem magnitudeOfDecimal_exact {x : Binary64} {digits k : Nat}
    (h : digits <<< 1074 = x.units * 10 ^ k) : magnitudeOfDecimal digits (-(k : Int)) = x.magnitude := by
  rw [magnitudeOfDecimal_eq _ (by omega), show (-(k : Int)).toNat = 0 by omega,
    show (- -(k : Int)).toNat = k by omega, magnitudeOfRatio, Nat.pow_zero, Nat.mul_one, h]
  exact nearestMagnitude_units x (by positivity)

theorem onGrid_nat (units e : Nat) : onGrid units (e : Int) = (units, 10 ^ e <<< 1074) := rfl

theorem onGrid_neg (units k : Nat) : onGrid units (-(k : Int)) = (units * 10 ^ k, 1 <<< 1074) := by
  cases k with
  | zero => rw [Nat.pow_zero, Nat.mul_one]; rfl
  | succ k => rfl

section

variable {tie : Tie} {x : Binary64} {exponent : Int} {num den : Nat}

theorem onGrid?_eq (tie : Tie) (h : onGrid x.units exponent = (num, den)) :
    ∃ first second, onGrid? tie x exponent =
        (if ReadsBack x.magnitude first then some first
        else if ReadsBack x.magnitude second then some second
        else none) ∧
      (first = ⟨num / den, exponent⟩ ∧ second = ⟨num / den + 1, exponent⟩ ∨
        first = ⟨num / den + 1, exponent⟩ ∧ second = ⟨num / den, exponent⟩) := by
  unfold onGrid?
  rw [h]
  dsimp only
  split
  · exact ⟨_, _, rfl, Or.inl ⟨rfl, rfl⟩⟩
  · exact ⟨_, _, rfl, Or.inr ⟨rfl, rfl⟩⟩

/-- What is found on a grid reads back, and it is one of the two neighbours. -/
theorem onGrid?_eq_some (h : onGrid x.units exponent = (num, den)) {d : Decimal}
    (hhit : onGrid? tie x exponent = some d) :
    ReadsBack x.magnitude d = true ∧ d.digits ≤ num / den + 1 := by
  obtain ⟨first, second, heq, horder⟩ := onGrid?_eq tie h
  have hfirst : first.digits ≤ num / den + 1 := by
    rcases horder with ⟨rfl, rfl⟩ | ⟨rfl, rfl⟩ <;> simp
  have hsecond : second.digits ≤ num / den + 1 := by
    rcases horder with ⟨rfl, rfl⟩ | ⟨rfl, rfl⟩ <;> simp
  rw [heq] at hhit
  split at hhit
  · rename_i hread
    cases hhit
    exact ⟨hread, hfirst⟩
  split at hhit
  · rename_i hread
    cases hhit
    exact ⟨hread, hsecond⟩
  · cases hhit

/-- A grid whose lower neighbour reads back has a hit. -/
theorem onGrid?_ne_none (h : onGrid x.units exponent = (num, den))
    (hread : ReadsBack x.magnitude ⟨num / den, exponent⟩ = true) : onGrid? tie x exponent ≠ none := by
  obtain ⟨first, second, heq, ⟨rfl, rfl⟩ | ⟨rfl, rfl⟩⟩ := onGrid?_eq tie h
  · rw [heq, if_pos hread]
    exact Option.some_ne_none _
  · rw [heq, if_pos hread]
    split <;> exact Option.some_ne_none _

end

/-- The digits of a float on a grid that it is a point of. -/
theorem exact_shiftLeft {significand step j k unit : Nat} (hj : j ≤ step) (hunit : j + k = unit) :
    (significand * 2 ^ (step - j) * 5 ^ k) <<< unit = significand * 2 ^ step * 10 ^ k := by
  rw [Nat.shiftLeft_eq, ← hunit, show 10 ^ k = 2 ^ k * 5 ^ k by rw [← Nat.mul_pow]]
  obtain ⟨rest, rfl⟩ : ∃ rest, step = j + rest := ⟨step - j, by omega⟩
  rw [Nat.add_sub_cancel_left]
  ring

/-- Fractions on grids no finer than an exact one have few digits. -/
theorem fine_lt {significand step k unit : Nat} (hlt : significand < 2 ^ 53) (hk : step + k ≤ unit) :
    significand * 2 ^ step * 10 ^ k < 1 <<< unit * (2 ^ 53 * 5 ^ unit) := by
  have htwos : 2 ^ (step + k) ≤ 2 ^ unit := Nat.pow_le_pow_right (by decide) hk
  have hfives : 5 ^ k ≤ 5 ^ unit := Nat.pow_le_pow_right (by decide) (by omega)
  rw [Nat.shiftLeft_eq, Nat.one_mul]
  calc significand * 2 ^ step * 10 ^ k = significand * (2 ^ (step + k) * 5 ^ k) := by
        rw [show 10 ^ k = 2 ^ k * 5 ^ k by rw [← Nat.mul_pow]]
        ring
    _ < 2 ^ 53 * (2 ^ (step + k) * 5 ^ k) := Nat.mul_lt_mul_of_pos_right hlt (by positivity)
    _ ≤ 2 ^ 53 * (2 ^ unit * 5 ^ unit) := Nat.mul_le_mul_left _ (Nat.mul_le_mul htwos hfives)
    _ = 2 ^ unit * (2 ^ 53 * 5 ^ unit) := by ring

theorem coarse_lt {units e m unit : Nat} (h : units < 2 ^ (m + unit)) :
    units < 10 ^ e <<< unit * 2 ^ m := by
  calc units < 2 ^ (m + unit) := h
    _ = 1 * 2 ^ unit * 2 ^ m := by ring
    _ ≤ 10 ^ e * 2 ^ unit * 2 ^ m :=
        Nat.mul_le_mul_right _ (Nat.mul_le_mul_right _ (Nat.one_le_pow _ _ (by decide)))
    _ = 10 ^ e <<< unit * 2 ^ m := by rw [Nat.shiftLeft_eq]

theorem shiftLeft_div_shiftLeft (n k : Nat) : n <<< k / 1 <<< k = n := by
  rw [Nat.shiftLeft_eq, Nat.shiftLeft_eq, Nat.one_mul]
  exact Nat.mul_div_cancel _ (by positivity)

section

variable {x : Binary64} {significand step : Nat}

/-- The decimal of a float on the coarsest grid, up to the integers, that it is a point of. -/
theorem readsBack_exact (hunits : x.units = significand * 2 ^ step) {n k : Nat} (hn : n ≤ step)
    (hk : n + k = 1074) :
    onGrid x.units ((n : Int) - 1074) = (x.units * 10 ^ k, 1 <<< 1074) ∧
      ReadsBack x.magnitude ⟨x.units * 10 ^ k / 1 <<< 1074, (n : Int) - 1074⟩ = true := by
  have hexponent : (n : Int) - 1074 = -(k : Int) := by omega
  have hexact : (significand * 2 ^ (step - n) * 5 ^ k) <<< 1074 = x.units * 10 ^ k :=
    hunits ▸ exact_shiftLeft hn hk
  refine ⟨hexponent ▸ onGrid_neg x.units k, ?_⟩
  rw [← hexact, shiftLeft_div_shiftLeft, hexponent, ReadsBack, beq_iff_eq]
  exact magnitudeOfDecimal_exact hexact

theorem onGrid_lt (hunits : x.units = significand * 2 ^ step) (hlt : significand < 2 ^ 53) {n : Nat}
    (hn : min step 1074 ≤ n) :
    ∃ num den, onGrid x.units ((n : Int) - 1074) = (num, den) ∧ num / den < 2 ^ 53 * 5 ^ 1074 := by
  rcases Nat.lt_or_ge n 1074 with hfine | hcoarse
  · obtain ⟨k, hk⟩ : ∃ k, n + k = 1074 := ⟨1074 - n, by omega⟩
    have hexponent : (n : Int) - 1074 = -(k : Int) := by omega
    refine ⟨_, _, hexponent ▸ onGrid_neg x.units k, Nat.div_lt_of_lt_mul ?_⟩
    rw [hunits]
    exact fine_lt hlt (by omega)
  · obtain ⟨e, rfl⟩ : ∃ e, n = 1074 + e := ⟨n - 1074, by omega⟩
    have hexponent : ((1074 + e : Nat) : Int) - 1074 = (e : Int) := by omega
    refine ⟨_, _, hexponent ▸ onGrid_nat x.units e, ?_⟩
    have hbound : 2 ^ 1026 ≤ 2 ^ 53 * 5 ^ 1074 := by decide +kernel
    exact Nat.lt_of_lt_of_le (Nat.div_lt_of_lt_mul (coarse_lt (units_lt x (by decide)))) hbound

/-- The search stops at the exact grid or before. -/
theorem shortestFrom_spec (tie : Tie) (hunits : x.units = significand * 2 ^ step)
    (hlt : significand < 2 ^ 53) {n : Nat} (hn : min step 1074 ≤ n) :
    ReadsBack x.magnitude (shortestFrom tie x n) = true ∧
      (shortestFrom tie x n).digits ≤ 2 ^ 53 * 5 ^ 1074 := by
  induction n with
  | zero =>
    have hstep : step = 0 := by omega
    have hpow (k : Nat) : Nat.pow 5 k = 5 ^ k := rfl
    have hexact : (significand * 2 ^ (step - 0) * 5 ^ 1074) <<< 1074 = significand * 2 ^ step * 10 ^ 1074 :=
      exact_shiftLeft (Nat.zero_le step) (Nat.zero_add 1074)
    rw [Nat.sub_zero, ← hunits] at hexact
    have hread := magnitudeOfDecimal_exact hexact
    simp only [shortestFrom, hpow]
    refine ⟨?_, ?_⟩
    · rw [ReadsBack, beq_iff_eq]
      generalize x.units * 5 ^ 1074 = digits at hread ⊢
      exact hread
    · have hle : x.units ≤ 2 ^ 53 := by
        rw [hunits, hstep, Nat.pow_zero, Nat.mul_one]
        exact Nat.le_of_lt hlt
      generalize 5 ^ 1074 = fives
      exact Nat.mul_le_mul_right fives hle
  | succ n ih =>
    obtain ⟨num, den, hgrid, hquotient⟩ := onGrid_lt hunits hlt hn
    rw [shortestFrom]
    split
    · rename_i d hhit
      obtain ⟨hread, hdigits⟩ := onGrid?_eq_some hgrid hhit
      exact ⟨hread, Nat.le_trans hdigits hquotient⟩
    · rename_i hmiss
      apply ih
      -- the exact grid has a hit, so it is still to come
      by_contra hpassed
      obtain ⟨k, hk⟩ : ∃ k, n + 1 + k = 1074 := ⟨1074 - (n + 1), by omega⟩
      obtain ⟨hexact, hread⟩ := readsBack_exact hunits (by omega) hk
      exact onGrid?_ne_none hexact hread hmiss

end

/-- The grid that the search starts on is coarse enough. -/
theorem min_le_start {x : Binary64} {significand step : Nat}
    (hunits : x.units = significand * 2 ^ step) (hpos : significand ≠ 0) :
    min step 1074 ≤ (x.units.log2 * 30103 + 1074 * 69897) / 100000 + 2 := by
  have hle : 2 ^ step ≤ x.units := hunits ▸ Nat.le_mul_of_pos_left _ (Nat.pos_of_ne_zero hpos)
  have hlog : step ≤ x.units.log2 :=
    (Nat.le_log2 (Nat.ne_of_gt (Nat.lt_of_lt_of_le (by positivity) hle))).mpr hle
  omega

/-- What the shortest decimal of a float is good for: it reads back, and it is not long. -/
theorem shortest_spec (tie : Tie) (x : Binary64) :
    magnitudeOfDecimal (shortest tie x).digits (shortest tie x).exponent = x.magnitude ∧
      (shortest tie x).digits < 10 ^ 768 ∧
      ((shortest tie x).digits = 0 → (shortest tie x).exponent = 0) := by
  have hbound : 2 ^ 53 * 5 ^ 1074 < 10 ^ 768 := by decide +kernel
  obtain ⟨significand, step, hunits, hmagnitude, hlt, hle⟩ := exists_units x
  unfold shortest
  split
  case isTrue hzero =>
    exact ⟨(magnitudeOfDecimal_zero 0).trans hzero.symm, by positivity, fun _ => rfl⟩
  case isFalse hne =>
    have hpos : significand ≠ 0 := by omega
    obtain ⟨hread, hdigits⟩ := shortestFrom_spec tie hunits hlt (min_le_start hunits hpos)
    rw [ReadsBack, beq_iff_eq] at hread
    refine ⟨hread, Nat.lt_of_le_of_lt hdigits hbound, fun hzero => ?_⟩
    rw [hzero, magnitudeOfDecimal_zero] at hread
    exact absurd hread.symm hne

end Paging.Decimal
