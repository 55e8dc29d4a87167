import Paging.Proofs.Sort.Stable
import Paging.Request

/-!
The sort keys of a request. A further key on a field that an earlier one names breaks no tie. So the tie breaker
is left out where it names the field of the sort key, which makes no difference to the order.
-/

namespace Paging

open Std

variable {ρ : Type} [Row ρ]

theorem Direction.apply_eq_eq_iff (direction : Direction) (ordering : Ordering) :
    direction.apply ordering = .eq ↔ ordering = .eq := by
  cases direction with
  | ascending => rfl
  | descending => exact Ordering.swap_eq_eq

namespace SortKey

theorem compareBy_eq_iff (key : SortKey) (a b : ρ) :
    compareBy key a b = .eq ↔ compareValues (Row.value? a key.field) (Row.value? b key.field) = .eq :=
  key.direction.apply_eq_eq_iff _

theorem compareRows_singleton (key : SortKey) (a b : ρ) : compareRows [key] a b = compareBy key a b :=
  Ordering.then_eq

/-- Further keys are looked at where the earlier ones find two rows equal. -/
theorem compareRows_append (keys others : List SortKey) (a b : ρ) :
    compareRows (keys ++ others) a b = (compareRows keys a b).then (compareRows others a b) := by
  induction keys with
  | nil => rfl
  | cons key keys ih =>
    rw [List.cons_append, compareRows_cons, compareRows_cons, compareLex, compareLex, ih, Ordering.then_assoc]

/-- Keys find two rows equal if these have equal values of every field that is named, whatever the directions are. -/
theorem compareRows_eq_eq_iff (keys : List SortKey) (a b : ρ) :
    compareRows keys a b = .eq ↔
      ∀ field ∈ keys.map SortKey.field, compareValues (Row.value? a field) (Row.value? b field) = .eq := by
  induction keys with
  | nil => simp [compareRows, compareAll]
  | cons key keys ih =>
    rw [compareRows_cons, compareLex, Ordering.then_eq_eq, compareBy_eq_iff, ih, List.map_cons, List.forall_mem_cons]

/-- Where a further key on a field that is named already is looked at, it finds the values equal too. -/
theorem compareRows_append_of_named {keys : List SortKey} {key : SortKey}
    (hnamed : key.field ∈ keys.map SortKey.field) (a b : ρ) :
    compareRows (keys ++ [key]) a b = compareRows keys a b := by
  rw [compareRows_append, compareRows_singleton]
  cases hkeys : compareRows keys a b with
  | lt => rfl
  | gt => rfl
  | eq =>
    have hvalues := (compareRows_eq_eq_iff keys a b).mp hkeys key.field hnamed
    exact (compareBy_eq_iff key a b).mpr hvalues

/-- Keys that compare rows alike put them in the same order. -/
theorem sort_congr {first second : List SortKey} (h : ∀ a b : ρ, compareRows first a b = compareRows second a b)
    (rows : List ρ) : sort first rows = sort second rows := by
  rw [sort_eq_mergeSort, sort_eq_mergeSort]
  simp only [h]

/-- A further key that turns round two rows which the earlier ones find equal changes their order. -/
theorem sort_append_ne {keys : List SortKey} {key : SortKey} {a b : ρ} (hequal : compareRows keys a b = .eq)
    (hturned : compareBy key a b = .gt) : sort (keys ++ [key]) [a, b] ≠ sort keys [a, b] := by
  intro hsame
  have hkept : sort keys [a, b] = [a, b] := by
    apply sort_of_pairwise
    rw [List.pairwise_pair, hequal]
    rfl
  have hascending := pairwise_sort (keys ++ [key]) [a, b]
  rw [hsame, hkept, List.pairwise_pair, compareRows_append, compareRows_singleton, hequal, hturned] at hascending
  cases hascending

end SortKey

namespace Request

/-- The sort keys of a request: the tie breaker is left out where it names the field of the sort key. -/
def keys (request : Request) : List SortKey :=
  if request.tieBreaker.field = request.sort.field then [request.sort]
  else [request.sort, request.tieBreaker]

theorem exists_keys (request : Request) : ∃ others, request.keys = request.sort :: others := by
  unfold keys
  split <;> exact ⟨_, rfl⟩

variable (request : Request)

/-- The order of rows under the sort field and the tie breaker, whether or not they name the same field. -/
def compareRows (a b : ρ) : Ordering := SortKey.compareRows [request.sort, request.tieBreaker] a b

instance : TransCmp (request.compareRows (ρ := ρ)) :=
  inferInstanceAs (TransCmp (SortKey.compareRows [request.sort, request.tieBreaker]))

/-- A tie breaker under the sort field breaks no tie, so it does not matter that it is left out there. -/
theorem compareRows_keys (a b : ρ) : SortKey.compareRows request.keys a b = request.compareRows a b := by
  unfold keys
  split
  · rename_i hfield
    have hnamed : request.tieBreaker.field ∈ [request.sort].map SortKey.field := List.mem_singleton.mpr hfield
    exact (SortKey.compareRows_append_of_named hnamed a b).symm
  · rfl

/-- Sorting by the keys of a request is the stable sort under its sort key and its tie breaker. -/
theorem stablySorts_iff (rows sorted : List ρ) :
    StablySorts request.compareRows rows sorted ↔ sorted = SortKey.sort request.keys rows := by
  have hcompare : request.compareRows (ρ := ρ) = SortKey.compareRows request.keys := by
    funext a b
    exact (request.compareRows_keys a b).symm
  rw [hcompare, SortKey.stablySorts_iff]

/-- What does not come after another row in order does not compare greater by the sort key. -/
theorem isLE_compareBy_of_isLE {a b : ρ} (h : (SortKey.compareRows request.keys a b).isLE = true) :
    (SortKey.compareBy request.sort a b).isLE = true := by
  obtain ⟨others, hkeys⟩ := request.exists_keys
  rw [hkeys] at h
  exact SortKey.isLE_compareBy h

end Request

end Paging
