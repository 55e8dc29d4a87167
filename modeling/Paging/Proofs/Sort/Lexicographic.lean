import Paging.Proofs.Sort.Stable

/-!
The order of rows, said without comparing. A key ranks one row before another by their values, where a row
without a value comes last; a descending key ranks the other way round, so that such a row comes first. Of a
list of keys, the first one that tells two rows apart has the say.
-/

namespace Paging

open Std

namespace SortKey

/-- There is a first value, and it is less than the second one if there is such. -/
def Less (first second : Option Scalar) : Prop := ∃ a ∈ first, ∀ b ∈ second, compare a b = .lt

theorem compareValues_eq_lt_iff (first second : Option Scalar) :
    compareValues first second = .lt ↔ Less first second := by
  cases first with
  | none => cases second <;> simp [compareValues, Less]
  | some a => cases second <;> simp [compareValues, Less]

theorem compareValues_eq_gt_iff (first second : Option Scalar) :
    compareValues first second = .gt ↔ Less second first := by
  rw [OrientedCmp.gt_iff_lt, compareValues_eq_lt_iff]

variable {ρ : Type} [Row ρ]

/-- A key puts one row strictly before another. -/
def Ranks (key : SortKey) (a b : ρ) : Prop :=
  match key.direction with
  | .ascending => Less (Row.value? a key.field) (Row.value? b key.field)
  | .descending => Less (Row.value? b key.field) (Row.value? a key.field)

theorem compareBy_eq_lt_iff (key : SortKey) (a b : ρ) : compareBy key a b = .lt ↔ key.Ranks a b := by
  unfold compareBy Ranks
  cases key.direction with
  | ascending => exact compareValues_eq_lt_iff _ _
  | descending =>
    simp only [Direction.apply, Ordering.swap_eq_lt]
    exact compareValues_eq_gt_iff _ _

theorem compareBy_eq_eq_iff (key : SortKey) (a b : ρ) :
    compareBy key a b = .eq ↔ ¬key.Ranks a b ∧ ¬key.Ranks b a := by
  have hafter : key.Ranks b a ↔ compareBy key a b = .gt :=
    (compareBy_eq_lt_iff key b a).symm.trans OrientedCmp.gt_iff_lt.symm
  rw [hafter, ← compareBy_eq_lt_iff]
  cases compareBy key a b <;> simp

/-- The first of some keys that tells two rows apart ranks the one before the other. -/
inductive Outranks (a b : ρ) : List SortKey → Prop
  | here {key : SortKey} {others : List SortKey} (hranks : key.Ranks a b) : Outranks a b (key :: others)
  | later {key : SortKey} {others : List SortKey} (hbefore : ¬key.Ranks a b) (hafter : ¬key.Ranks b a)
    (hothers : Outranks a b others) : Outranks a b (key :: others)

theorem outranks_cons_iff (key : SortKey) (others : List SortKey) (a b : ρ) :
    Outranks a b (key :: others) ↔
      key.Ranks a b ∨ (¬key.Ranks a b ∧ ¬key.Ranks b a) ∧ Outranks a b others := by
  constructor
  · intro h
    cases h with
    | here hranks => exact Or.inl hranks
    | later hbefore hafter hothers => exact Or.inr ⟨⟨hbefore, hafter⟩, hothers⟩
  · rintro (hranks | ⟨⟨hbefore, hafter⟩, hothers⟩)
    · exact .here hranks
    · exact .later hbefore hafter hothers

theorem compareRows_eq_lt_iff (keys : List SortKey) (a b : ρ) :
    compareRows keys a b = .lt ↔ Outranks a b keys := by
  induction keys with
  | nil =>
    constructor
    · intro h
      cases h
    · intro h
      cases h
  | cons key others ih =>
    rw [compareRows_cons, compareLex, Ordering.then_eq_lt, compareBy_eq_lt_iff, compareBy_eq_eq_iff, ih,
      outranks_cons_iff]

theorem compareRows_eq_gt_iff (keys : List SortKey) (a b : ρ) :
    compareRows keys a b = .gt ↔ Outranks b a keys := by
  rw [OrientedCmp.gt_iff_lt, compareRows_eq_lt_iff]

end SortKey

end Paging
