import Paging.Proofs.Binary64.Integers
import Paging.Proofs.Scalar.Equality
import Paging.Scalar.Text

/-!
JSON integers as sort values. Those of 64 signed bits are kept. The others become floats, which cannot tell
all of them apart: these compare by the multiples of 2048 nearest to them, and so they never swap places.
-/

namespace Paging.Scalar

open Binary64

/-- The integer that the sort value of a JSON integer stands for. -/
def kept (n : Int) : Int :=
  if n < 2 ^ 63 then n else (roundHalfEven n.toNat 2048 * 2048 : Nat)

theorem kept_of_lt {n : Int} (h : n < 2 ^ 63) : kept n = n := if_pos h

theorem kept_of_le {n : Int} (h : 2 ^ 63 ≤ n) : kept n = (roundHalfEven n.toNat 2048 * 2048 : Nat) :=
  if_neg (not_lt.mpr h)

theorem le_kept {n : Int} (h : 2 ^ 63 ≤ n) : 2 ^ 63 ≤ kept n := by
  have hquotient := div_le_roundHalfEven n.toNat 2048
  rw [kept_of_le h]
  omega

/-- The sort value of an integer lies at the integer that it keeps. -/
theorem exists_ofJson?_integer (n : Int) (lower : -9223372036854775808 ≤ n) (upper : n < 18446744073709551616) :
    ∃ a, ofJson? (.number (.integer n lower upper)) = some a ∧ a.position? = some (positionOfInt (kept n)) := by
  by_cases hsigned : n < 2 ^ 63
  · refine ⟨int (Int64.ofInt n), if_pos hsigned, ?_⟩
    rw [kept_of_lt hsigned, position?, Int64.toInt_ofInt_of_le lower hsigned]
  · rw [not_lt] at hsigned
    obtain ⟨x, hx, hposition⟩ := @exists_ofDecimal?_eq n.toNat (by omega) (by omega)
    refine ⟨float x, (if_neg (not_lt.mpr hsigned)).trans (congrArg (Option.map float) hx), ?_⟩
    rw [position?, hposition, kept_of_le hsigned]

theorem compare_kept (m n : Int) :
    compare (kept m) (kept n) =
      if m < 2 ^ 63 ∨ n < 2 ^ 63 then compare m n
      else compare (roundHalfEven m.toNat 2048) (roundHalfEven n.toNat 2048) := by
  by_cases hm : m < 2 ^ 63
  · rw [if_pos (Or.inl hm), kept_of_lt hm]
    by_cases hn : n < 2 ^ 63
    · rw [kept_of_lt hn]
    · rw [not_lt] at hn
      have hseam := le_kept hn
      rw [Int.compare_eq_lt.mpr (by omega), Int.compare_eq_lt.mpr (by omega)]
  · by_cases hn : n < 2 ^ 63
    · rw [if_pos (Or.inr hn), kept_of_lt hn]
      rw [not_lt] at hm
      have hseam := le_kept hm
      rw [Int.compare_eq_gt.mpr (by omega), Int.compare_eq_gt.mpr (by omega)]
    · rw [if_neg (not_or.mpr ⟨hm, hn⟩), kept_of_le (not_lt.mp hm), kept_of_le (not_lt.mp hn)]
      have hscale : StrictMono fun q : Nat => ((q * 2048 : Nat) : Int) := fun p q h => by
        dsimp only
        omega
      rw [← cmp_eq_compare, ← cmp_eq_compare]
      exact hscale.cmp_map_eq _ _

/--
JSON integers compare as themselves if one of them has 64 signed bits, and else as the multiples of 2048
nearest to them, where a tie goes to the even multiple. They are never the other way round.
-/
theorem compare_ofJson?_integers (m n : Int) (mLower : -9223372036854775808 ≤ m)
    (mUpper : m < 18446744073709551616) (nLower : -9223372036854775808 ≤ n)
    (nUpper : n < 18446744073709551616) :
    ∃ a b, ofJson? (.number (.integer m mLower mUpper)) = some a ∧
      ofJson? (.number (.integer n nLower nUpper)) = some b ∧
      compare a b = (if m < 2 ^ 63 ∨ n < 2 ^ 63 then compare m n
        else compare (roundHalfEven m.toNat 2048) (roundHalfEven n.toNat 2048)) ∧
      (m ≤ n → compare a b ≠ .gt) := by
  obtain ⟨a, ha, haPosition⟩ := exists_ofJson?_integer m mLower mUpper
  obtain ⟨b, hb, hbPosition⟩ := exists_ofJson?_integer n nLower nUpper
  have hcompare := calc compare a b
      _ = compare (positionOfInt (kept m)) (positionOfInt (kept n)) := compare_of_position? haPosition hbPosition
      _ = compare (kept m) (kept n) := compare_positionOfInt _ _
      _ = _ := compare_kept m n
  refine ⟨a, b, ha, hb, hcompare, fun hle => ?_⟩
  rw [hcompare]
  split
  · rwa [ne_eq, Int.compare_eq_gt, not_lt]
  · rw [ne_eq, Nat.compare_eq_gt, not_lt]
    exact roundHalfEven_mono (Int.toNat_le_toNat hle) 2048

/-- A tie between two multiples goes down to the even one, and the integer after it goes up. -/
theorem compare_across_tie :
    let tie : Int := 9223372036854776832
    let after : Int := 9223372036854776833
    ∃ a b, ofJson? (.number (.integer tie (by decide) (by decide))) = some a ∧
      ofJson? (.number (.integer after (by decide) (by decide))) = some b ∧ compare a b = .lt := by
  intro tie after
  obtain ⟨a, b, ha, hb, hcompare, _⟩ :=
    compare_ofJson?_integers tie after (by decide) (by decide) (by decide) (by decide)
  have hmultiples : compare (roundHalfEven tie.toNat 2048) (roundHalfEven after.toNat 2048) = .lt := by decide
  exact ⟨a, b, ha, hb, hcompare.trans ((if_neg (by decide)).trans hmultiples)⟩

/-- Past 63 bits, neighbouring integers may become one sort value. -/
theorem compare_neighbours_collapse :
    ¬ ∀ (m n : Int) (mLower : -9223372036854775808 ≤ m) (mUpper : m < 18446744073709551616)
        (nLower : -9223372036854775808 ≤ n) (nUpper : n < 18446744073709551616) (a b : Scalar),
        ofJson? (.number (.integer m mLower mUpper)) = some a →
        ofJson? (.number (.integer n nLower nUpper)) = some b → compare a b = compare m n := by
  intro h
  have hcollapse := h 9223372036854775808 9223372036854775809 (by decide) (by decide) (by decide) (by decide)
    (float (Binary64.ofBits 0x43E0000000000000)) (float (Binary64.ofBits 0x43E0000000000000))
    (by decide +kernel) (by decide +kernel)
  exact absurd hcollapse (by decide)

end Paging.Scalar
