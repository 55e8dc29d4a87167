import Paging.Proofs.Scalar.Order

/-!
When scalars are equal in order. Scalars of all kinds but numbers are so only if they are the same. Of
numbers the order looks through the ways to write them: as an integer or as a float of its value, and as
zero with either sign.
-/

namespace Paging

open Std

/-! ### Kinds whose order tells all values apart -/

namespace Calendar

instance : LawfulEqOrd Date where
  eq_of_compare {a b} h := by
    change compareLex (compareOn Date.year) (compareLex (compareOn Date.month) (compareOn Date.day)) a b =
      .eq at h
    simp only [compareLex, compareOn, Ordering.then_eq_eq, Std.compare_eq_iff_eq] at h
    obtain ⟨hyear, hmonth, hday⟩ := h
    cases a
    cases b
    cases hyear
    cases hmonth
    cases hday
    rfl

instance : LawfulEqOrd Time where
  eq_of_compare {a b} h := by
    change compareLex (compareOn Time.hour) (compareLex (compareOn Time.minute)
      (compareLex (compareOn Time.second) (compareOn Time.nanosecond))) a b = .eq at h
    simp only [compareLex, compareOn, Ordering.then_eq_eq, Std.compare_eq_iff_eq] at h
    obtain ⟨hhour, hminute, hsecond, hnanosecond⟩ := h
    cases a
    cases b
    cases hhour
    cases hminute
    cases hsecond
    cases hnanosecond
    rfl

instance : LawfulEqOrd DateTime where
  eq_of_compare {a b} h := by
    change compareLex (compareOn DateTime.date) (compareOn DateTime.time) a b = .eq at h
    simp only [compareLex, compareOn, Ordering.then_eq_eq, Std.compare_eq_iff_eq] at h
    obtain ⟨hdate, htime⟩ := h
    cases a
    cases b
    cases hdate
    cases htime
    rfl

instance : LawfulEqOrd Instant where
  eq_of_compare {a b} h := by
    have hnanoseconds : a.nanoseconds = b.nanoseconds := Std.compare_eq_iff_eq.mp h
    cases a
    cases b
    cases hnanoseconds
    rfl

end Calendar

instance : LawfulEqOrd Uuid where
  eq_of_compare {a b} h := by
    have hnumber : a.bits.toNat = b.bits.toNat := Std.compare_eq_iff_eq.mp h
    cases a
    cases b
    exact congrArg Uuid.mk (BitVec.eq_of_toNat_eq hnumber)

namespace Scalar

theorem kind_eq_of_compare_eq {a b : Scalar} (h : compare a b = .eq) : a.kind = b.kind := by
  by_contra hkind
  rw [compare_of_kind_ne hkind] at h
  exact hkind (LawfulEqOrd.eq_of_compare h)

/-- Scalars other than numbers are equal in order only if they are the same. -/
theorem eq_of_compare_eq {a b : Scalar} (hnumber : a.kind ≠ .number) (h : compare a b = .eq) : a = b := by
  have hkind := kind_eq_of_compare_eq h
  cases a with
  | int x => exact absurd rfl hnumber
  | float x => exact absurd rfl hnumber
  | bool x =>
    cases b <;> cases hkind
    exact congrArg bool (LawfulEqOrd.eq_of_compare h)
  | text x =>
    cases b <;> cases hkind
    exact congrArg text (LawfulEqOrd.eq_of_compare h)
  | date x =>
    cases b <;> cases hkind
    exact congrArg date (LawfulEqOrd.eq_of_compare h)
  | dateTime x =>
    cases b <;> cases hkind
    exact congrArg dateTime (LawfulEqOrd.eq_of_compare h)
  | timestamp x =>
    cases b <;> cases hkind
    exact congrArg timestamp (LawfulEqOrd.eq_of_compare h)
  | uuid x =>
    cases b <;> cases hkind
    exact congrArg uuid (LawfulEqOrd.eq_of_compare h)

/-! ### Numbers -/

theorem compare_eq_iff_position {a b : Scalar} {p q : Int} (ha : a.position? = some p)
    (hb : b.position? = some q) : compare a b = .eq ↔ p = q := by
  rw [compare_of_position? ha hb, Std.compare_eq_iff_eq]

/-- Two ways to write one number: as an integer and as a float, or as zero with either sign. -/
inductive Respells : Scalar → Scalar → Prop
  | wholeReal {whole : Int64} {real : Binary64} (h : Binary64.positionOfInt whole.toInt = real.position) :
    Respells (.int whole) (.float real)
  | realWhole {whole : Int64} {real : Binary64} (h : real.position = Binary64.positionOfInt whole.toInt) :
    Respells (.float real) (.int whole)
  | zeros {first second : Binary64} (hfirst : first.magnitude = 0) (hsecond : second.magnitude = 0)
    (hsign : first.negative ≠ second.negative) : Respells (.float first) (.float second)

theorem Respells.ne {a b : Scalar} (h : a.Respells b) : a ≠ b := by
  rintro rfl
  cases h with
  | zeros _ _ hsign => exact hsign rfl

theorem Respells.compare_eq {a b : Scalar} (h : a.Respells b) : compare a b = .eq := by
  cases h with
  | wholeReal h => exact (compare_eq_iff_position rfl rfl).mpr h
  | realWhole h => exact (compare_eq_iff_position rfl rfl).mpr h
  | zeros hfirst hsecond _ =>
    apply (compare_eq_iff_position rfl rfl).mpr
    exact (Binary64.position_eq_iff _ _).mpr (Or.inr ⟨hfirst, hsecond⟩)

theorem float_eq_or_respells {x y : Binary64} (h : x.position = y.position) :
    float x = float y ∨ (float x).Respells (float y) := by
  by_cases hsame : x = y
  · exact Or.inl (congrArg float hsame)
  · obtain ⟨hx, hy⟩ := ((Binary64.position_eq_iff x y).mp h).resolve_left hsame
    refine Or.inr (.zeros hx hy fun hsign => hsame ?_)
    exact Binary64.eq_of_negative_eq hsign (hx.trans hy.symm)

/-- Scalars are equal in order exactly if they are the same, or two ways to write one number. -/
theorem compare_eq_iff (a b : Scalar) : compare a b = .eq ↔ a = b ∨ a.Respells b := by
  constructor
  · intro h
    by_cases hnumber : a.kind = .number
    · have hother : b.kind = .number := (kind_eq_of_compare_eq h).symm.trans hnumber
      cases a with
      | int x =>
        cases b with
        | int y =>
          have hposition := (compare_eq_iff_position rfl rfl).mp h
          exact Or.inl (congrArg int (Int64.toInt_inj.mp (Binary64.positionOfInt_injective hposition)))
        | float y => exact Or.inr (.wholeReal ((compare_eq_iff_position rfl rfl).mp h))
        | _ => cases hother
      | float x =>
        cases b with
        | int y => exact Or.inr (.realWhole ((compare_eq_iff_position rfl rfl).mp h))
        | float y => exact float_eq_or_respells ((compare_eq_iff_position rfl rfl).mp h)
        | _ => cases hother
      | _ => cases hnumber
    · exact Or.inl (eq_of_compare_eq hnumber h)
  · rintro (rfl | h)
    · exact ReflCmp.compare_self
    · exact h.compare_eq

end Scalar

end Paging
