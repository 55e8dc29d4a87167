import Paging.Proofs.Binary64.Comparison
import Paging.Scalar.Basic

/-!
The order of scalars is total up to its own equality. Numbers compare by their places on the number line. No
scalar has more than one of the values that `Scalar.order` looks at, such a place being one of them, so the order
is lexicographic: first in the kind and then in each of these values, most of which are missing on both sides.
That makes the laws of the order those of its parts.
-/

namespace Paging

open Std

namespace Scalar

instance : TransOrd Kind := inferInstanceAs (TransCmp (compareOn Kind.rank))

theorem Kind.rank_injective {a b : Kind} (h : a.rank = b.rank) : a = b := by
  cases a <;> cases b <;> first | rfl | cases h

instance : LawfulEqOrd Kind where
  eq_of_compare h := Kind.rank_injective (Std.compare_eq_iff_eq.mp h)

end Scalar

namespace Calendar

instance : TransOrd Date :=
  inferInstanceAs (TransCmp (compareLex (compareOn Date.year)
    (compareLex (compareOn Date.month) (compareOn Date.day))))

instance : TransOrd Time :=
  inferInstanceAs (TransCmp (compareLex (compareOn Time.hour) (compareLex (compareOn Time.minute)
    (compareLex (compareOn Time.second) (compareOn Time.nanosecond)))))

instance : TransOrd DateTime :=
  inferInstanceAs (TransCmp (compareLex (compareOn DateTime.date) (compareOn DateTime.time)))

instance : TransOrd Instant := inferInstanceAs (TransCmp (compareOn Instant.nanoseconds))

end Calendar

instance : TransOrd Uuid := inferInstanceAs (TransCmp (compareOn fun uuid : Uuid => uuid.bits.toNat))

namespace Scalar

/-- The place of a number on the number line, in units of the smallest positive float. -/
def position? : Scalar → Option Int
  | .int value => some (Binary64.positionOfInt value.toInt)
  | .float value => some value.position
  | _ => none

/-- Numbers of either type compare by their places. -/
theorem compare_of_position? {a b : Scalar} {p q : Int} (ha : a.position? = some p) (hb : b.position? = some q) :
    compare a b = compare p q := by
  cases a with
  | int i =>
    cases ha
    cases b with
    | int j =>
      cases hb
      exact (Binary64.compare_toInt i j).trans (Binary64.compare_positionOfInt i.toInt j.toInt).symm
    | float y =>
      cases hb
      exact Binary64.compareInt_eq i y
    | _ => cases hb
  | float x =>
    cases ha
    cases b with
    | int j =>
      cases hb
      exact (congrArg Ordering.swap (Binary64.compareInt_eq j x)).trans OrientedCmp.eq_swap.symm
    | float y =>
      cases hb
      exact Binary64.compareFloats_eq x y
    | _ => cases hb
  | _ => cases ha

def flag? : Scalar → Option Bool
  | .bool value => some value
  | _ => none

def text? : Scalar → Option String
  | .text value => some value
  | _ => none

def date? : Scalar → Option Calendar.Date
  | .date value => some value
  | _ => none

def dateTime? : Scalar → Option Calendar.DateTime
  | .dateTime value => some value
  | _ => none

def instant? : Scalar → Option Calendar.Instant
  | .timestamp value => some value
  | _ => none

def uuid? : Scalar → Option Uuid
  | .uuid value => some value
  | _ => none

/-- The order of scalars, one kind of value after the other. -/
def lexicographic : Scalar → Scalar → Ordering :=
  compareLex (compareOn kind) <| compareLex (compareOn flag?) <| compareLex (compareOn position?) <|
    compareLex (compareOn text?) <| compareLex (compareOn date?) <| compareLex (compareOn dateTime?) <|
      compareLex (compareOn instant?) (compareOn uuid?)

theorem lexicographic_of_position? {a b : Scalar} {p q : Int} (ha : a.position? = some p)
    (hb : b.position? = some q) : lexicographic a b = compare p q := by
  cases a <;> cases ha <;> cases b <;> cases hb <;>
    (simp only [lexicographic, compareLex, compareOn, kind, flag?, position?, text?, date?, dateTime?, instant?,
      uuid?, ReflOrd.compare_self, Ordering.eq_then, Ordering.then_eq]; rfl)

theorem compare_of_kind_ne {a b : Scalar} (h : a.kind ≠ b.kind) :
    compare a b = compare a.kind b.kind := by
  cases a <;> cases b <;> first | rfl | exact absurd rfl h

theorem compare_eq_lexicographic (a b : Scalar) : compare a b = lexicographic a b := by
  by_cases h : a.kind = b.kind
  · cases a <;> cases b <;> cases h <;>
      first
      | exact (compare_of_position? rfl rfl).trans (lexicographic_of_position? rfl rfl).symm
      | change order _ _ = _
        simp only [order, lexicographic, compareLex, compareOn, kind, flag?, position?, text?, date?,
          dateTime?, instant?, uuid?, ReflOrd.compare_self, Ordering.eq_then, Ordering.then_eq]
        rfl
  · rw [compare_of_kind_ne h]
    simp only [lexicographic, compareLex, compareOn]
    cases hkind : compare a.kind b.kind with
    | eq => exact absurd (LawfulEqOrd.eq_of_compare hkind) h
    | lt => rfl
    | gt => rfl

instance : TransCmp lexicographic := by
  unfold lexicographic
  infer_instance

instance : TransOrd Scalar where
  eq_swap {a b} := by
    rw [compare_eq_lexicographic a b, compare_eq_lexicographic b a]
    exact OrientedCmp.eq_swap
  isLE_trans {a b c} hab hbc := by
    rw [compare_eq_lexicographic] at hab hbc ⊢
    exact TransCmp.isLE_trans hab hbc

/-- Scalars compare by a total preorder whose classes of equal scalars never mix kinds. -/
theorem compare_total_upto_equality (a b c : Scalar) :
    compare b a = (compare a b).swap ∧ compare a a = .eq ∧
      ((compare a b).isLE → (compare b c).isLE → (compare a c).isLE) ∧
      (compare a b = .eq → compare a c = compare b c) ∧
      (a.kind ≠ b.kind → compare a b = compare a.kind b.kind ∧ compare a b ≠ .eq) := by
  refine ⟨OrientedCmp.eq_swap, ReflCmp.compare_self, TransCmp.isLE_trans, TransCmp.congr_left, ?_⟩
  intro hkind
  rw [compare_of_kind_ne hkind]
  exact ⟨rfl, fun heq => hkind (LawfulEqOrd.eq_of_compare heq)⟩

/--
A NaN stands beyond the integers, `2 ^ 53` counts the same as an integer and as a float, and text comes
after all numbers.
-/
theorem compare_total_around_nan :
    let whole := int 9007199254740992
    let rounded := float (Binary64.ofBits 0x4340000000000000)
    let nan := float (Binary64.ofBits 0x7FF8000000000001)
    compare whole rounded = .eq ∧ (compare rounded nan).isLE ∧ (compare whole nan).isLE ∧
      compare whole nan = compare rounded nan ∧ nan.kind ≠ (text "1").kind ∧
      compare nan (text "1") = compare nan.kind (text "1").kind := by
  intro whole rounded nan
  have heq : compare whole rounded = .eq := by decide +kernel
  have hle : (compare rounded nan).isLE := by decide +kernel
  have hkind : nan.kind ≠ (text "1").kind := by decide
  obtain ⟨_, _, htrans, hcongr, _⟩ := compare_total_upto_equality whole rounded nan
  obtain ⟨_, _, _, _, hkinds⟩ := compare_total_upto_equality nan (text "1") whole
  exact ⟨heq, hle, htrans (by rw [heq]; rfl) hle, hcongr heq, hkind, (hkinds hkind).1⟩

end Scalar

end Paging
