import Mathlib.Data.List.Basic
import Mathlib.Data.List.Pairwise
import Paging.Proofs.Scalar.Order
import Paging.Sort

/-!
The stable order of rows. A list of sort keys compares rows by a total preorder, and the positions of
the rows in that order, equal rows in stored order, increase strictly in a total order. That determines
the sorted list, also the one of the rows that pass a filter.
-/

namespace Paging

open Std

/-! ### Merge sort of an increasing list -/

section

variable {α : Type} (cmp : α → α → Ordering) [TransCmp cmp] (lt : α → α → Prop)

/-- Less in the order, or equal in it and less in the other one. -/
def StablyBefore (a b : α) : Prop := cmp a b = .lt ∨ (cmp a b = .eq ∧ lt a b)

theorem isLE_trans (a b c : α) (hab : (cmp a b).isLE = true) (hbc : (cmp b c).isLE = true) :
    (cmp a c).isLE = true :=
  TransCmp.isLE_trans hab hbc

theorem isLE_total (a b : α) : ((cmp a b).isLE || (cmp b a).isLE) = true := by
  have hswap : cmp b a = (cmp a b).swap := OrientedCmp.eq_swap
  rw [hswap]
  cases cmp a b <;> rfl

variable {lt}

omit [TransCmp cmp] in
theorem stablyBefore_of_isLE {a b : α} (hle : (cmp a b).isLE = true) (hlt : lt a b) :
    StablyBefore cmp lt a b := by
  cases hcmp : cmp a b with
  | lt => exact Or.inl hcmp
  | eq => exact Or.inr ⟨hcmp, hlt⟩
  | gt =>
    rw [hcmp] at hle
    cases hle

theorem pairwise_mergeSort {list : List α} (h : list.Pairwise lt) :
    (list.mergeSort fun a b => (cmp a b).isLE).Pairwise (StablyBefore cmp lt) := by
  induction list with
  | nil => simp
  | cons a list ih =>
    obtain ⟨hfirst, hrest⟩ := List.pairwise_cons.mp h
    have hle := List.pairwise_mergeSort (isLE_trans cmp) (isLE_total cmp) (a :: list)
    obtain ⟨before, after, hsort, hothers, hbefore⟩ :=
      List.mergeSort_cons (isLE_trans cmp) (isLE_total cmp) a list
    have hpairs := ih hrest
    rw [hothers, List.pairwise_append] at hpairs
    obtain ⟨hpairs₁, hpairs₂, hpairs⟩ := hpairs
    rw [hsort] at hle ⊢
    have hless : ∀ b ∈ before, StablyBefore cmp lt b a := by
      intro b hb
      have hgt := hbefore b hb
      have hswap : cmp b a = (cmp a b).swap := OrientedCmp.eq_swap
      refine Or.inl ?_
      rw [hswap]
      cases hcmp : cmp a b <;> simp_all
    have hgreater : ∀ b ∈ after, StablyBefore cmp lt a b := by
      intro b hb
      have hmem : b ∈ list := by
        rw [← List.mem_mergeSort, hothers]
        exact List.mem_append_right _ hb
      have hafter := (List.pairwise_append.mp hle).2.1
      exact stablyBefore_of_isLE cmp ((List.pairwise_cons.mp hafter).1 b hb) (hfirst b hmem)
    rw [List.pairwise_append]
    refine ⟨hpairs₁, List.pairwise_cons.mpr ⟨hgreater, hpairs₂⟩, ?_⟩
    intro b hb c hc
    rcases List.mem_cons.mp hc with rfl | hc
    · exact hless b hb
    · exact hpairs b hb c hc

theorem not_stablyBefore_both [Std.Asymm lt] {a b : α} (hab : StablyBefore cmp lt a b)
    (hba : StablyBefore cmp lt b a) : False := by
  have hswap : cmp b a = (cmp a b).swap := OrientedCmp.eq_swap
  rcases hab with hab | ⟨hab, hlt⟩
  · rcases hba with hba | ⟨hba, _⟩ <;> · rw [hswap, hab] at hba; cases hba
  · rcases hba with hba | ⟨_, hgt⟩
    · rw [hswap, hab] at hba
      cases hba
    · exact Std.Asymm.asymm _ _ hlt hgt

/-- There is one stable order at most. -/
theorem eq_of_pairwise_stablyBefore [Std.Asymm lt] {first second : List α} (hperm : first.Perm second)
    (hfirst : first.Pairwise (StablyBefore cmp lt)) (hsecond : second.Pairwise (StablyBefore cmp lt)) :
    first = second := by
  apply List.Perm.eq_of_pairwise
  · intro a b _ _ (hab : StablyBefore cmp lt a b) (hba : StablyBefore cmp lt b a)
    exact (not_stablyBefore_both cmp hab hba).elim
  · exact hfirst
  · exact hsecond
  · exact hperm

/-- What a stable sort leaves in the order of an increasing list, it leaves so in every part of it. -/
theorem mergeSort_filter [Std.Asymm lt] {list : List α} (h : list.Pairwise lt) (p : α → Bool) :
    ((list.filter p).mergeSort fun a b => (cmp a b).isLE) =
      (list.mergeSort fun a b => (cmp a b).isLE).filter p := by
  have hsorted := pairwise_mergeSort cmp h
  have hperm := (List.mergeSort_perm list fun a b => (cmp a b).isLE).symm.filter p
  exact eq_of_pairwise_stablyBefore cmp ((List.mergeSort_perm _ _).trans hperm)
    (pairwise_mergeSort cmp (h.sublist List.filter_sublist)) (hsorted.sublist List.filter_sublist)

end

/-! ### The comparison of rows -/

instance : TransCmp SortKey.compareValues where
  eq_swap {a b} := by
    rcases a with _ | a <;> rcases b with _ | b
    case some.some => exact OrientedOrd.eq_swap (a := a) (b := b)
    all_goals rfl
  isLE_trans {a b c} hab hbc := by
    rcases a with _ | a <;> rcases b with _ | b <;> rcases c with _ | c
    case some.some.some => exact TransOrd.isLE_trans (a := a) (b := b) (c := c) hab hbc
    all_goals
      first
      | rfl
      | exact absurd hab Bool.false_ne_true
      | exact absurd hbc Bool.false_ne_true

theorem Direction.transCmp_apply {α : Type} (direction : Direction) (cmp : α → α → Ordering)
    [TransCmp cmp] : TransCmp fun a b => direction.apply (cmp a b) := by
  cases direction with
  | ascending => exact inferInstanceAs (TransCmp cmp)
  | descending =>
    have hswap : (fun a b => Direction.descending.apply (cmp a b)) = fun a b => cmp b a := by
      funext a b
      exact OrientedCmp.eq_swap.symm
    rw [hswap]
    infer_instance

namespace SortKey

variable {ρ : Type} [Row ρ]

/-- The comparison of rows under one sort key. -/
def compareBy (key : SortKey) (a b : ρ) : Ordering :=
  key.direction.apply (compareValues (Row.value? a key.field) (Row.value? b key.field))

/-- The comparison of rows under a list of sort keys. -/
def compareRows (keys : List SortKey) (a b : ρ) : Ordering := compareAll keys (values keys a) (values keys b)

theorem compareRows_cons (key : SortKey) (keys : List SortKey) :
    compareRows (ρ := ρ) (key :: keys) = compareLex (compareBy key) (compareRows keys) := rfl

/-- What does not compare greater under some keys does not under the first of them. -/
theorem isLE_compareBy {key : SortKey} {keys : List SortKey} {a b : ρ}
    (h : (compareRows (key :: keys) a b).isLE = true) : (compareBy key a b).isLE = true :=
  Ordering.isLE_left_of_isLE_then h

instance (key : SortKey) : TransCmp (compareBy (ρ := ρ) key) :=
  have hvalues := key.direction.transCmp_apply compareValues
  { eq_swap := hvalues.eq_swap, isLE_trans := hvalues.isLE_trans }

instance (keys : List SortKey) : TransCmp (compareRows (ρ := ρ) keys) := by
  induction keys with
  | nil => exact { eq_swap := rfl, isLE_trans := fun _ _ => rfl }
  | cons key keys ih =>
    rw [compareRows_cons]
    infer_instance

theorem sort_eq_mergeSort (keys : List SortKey) (rows : List ρ) :
    sort keys rows = rows.mergeSort fun a b => (compareRows keys a b).isLE := by
  have hmap := List.map_mergeSort (l := rows) (f := fun row => (values keys row, row))
    (r := fun a b => (compareRows keys a b).isLE) (s := fun a b => (compareAll keys a.1 b.1).isLE)
    fun _ _ _ _ => rfl
  rw [sort, ← hmap, List.map_map]
  exact List.map_id _

/-! ### Positions -/

/-- The rows in order, each by its position. -/
def positions (keys : List SortKey) (rows : List ρ) : List (Fin rows.length) :=
  (List.finRange rows.length).mergeSort fun i j => (compareRows keys (rows.get i) (rows.get j)).isLE

/-- A row comes before another: it compares less, or it compares equal and is stored before it. -/
def Precedes (keys : List SortKey) (rows : List ρ) : Fin rows.length → Fin rows.length → Prop :=
  StablyBefore (fun i j => compareRows keys (rows.get i) (rows.get j)) (· < ·)

instance (keys : List SortKey) (rows : List ρ) :
    TransCmp fun i j : Fin rows.length => compareRows keys (rows.get i) (rows.get j) where
  eq_swap := OrientedCmp.eq_swap
  isLE_trans := TransCmp.isLE_trans

variable (keys : List SortKey) (rows : List ρ)

theorem positions_perm : (positions keys rows).Perm (List.finRange rows.length) := List.mergeSort_perm _ _

theorem mem_positions (i : Fin rows.length) : i ∈ positions keys rows :=
  (positions_perm keys rows).mem_iff.mpr (List.mem_finRange i)

theorem pairwise_positions : (positions keys rows).Pairwise (Precedes keys rows) :=
  pairwise_mergeSort _ (List.pairwise_lt_finRange rows.length)

/-- Sorting what passes a filter takes the positions of that from the order of all rows. -/
theorem sort_filter (p : ρ → Bool) :
    sort keys (rows.filter p) = ((positions keys rows).filter fun i => p (rows.get i)).map rows.get := by
  have hrows : rows.filter p = ((List.finRange rows.length).filter fun i => p (rows.get i)).map rows.get := by
    conv_lhs => rw [← List.map_get_finRange rows]
    rw [List.filter_map]
    rfl
  have hmap := List.map_mergeSort (l := (List.finRange rows.length).filter fun i => p (rows.get i))
    (f := rows.get) (r := fun i j => (compareRows keys (rows.get i) (rows.get j)).isLE)
    (s := fun a b => (compareRows keys a b).isLE) fun _ _ _ _ => rfl
  rw [sort_eq_mergeSort, hrows, ← hmap, mergeSort_filter _ (List.pairwise_lt_finRange rows.length)]
  rfl

theorem map_positions : (positions keys rows).map rows.get = sort keys rows := by
  have hall := sort_filter keys rows fun _ => true
  rw [List.filter_eq_self.mpr fun _ _ => rfl, List.filter_eq_self.mpr fun _ _ => rfl] at hall
  exact hall.symm

instance (i j : Fin rows.length) : Decidable (Precedes keys rows i j) := inferInstanceAs (Decidable (_ ∨ _ ∧ _))

variable {keys rows}

/-- All positions, each of them before those that follow it, are the order of the rows. -/
theorem sort_eq_map_of_pairwise {order : List (Fin rows.length)}
    (hperm : order.Perm (List.finRange rows.length)) (hpairs : order.Pairwise (Precedes keys rows)) :
    sort keys rows = order.map rows.get := by
  have horder : positions keys rows = order :=
    eq_of_pairwise_stablyBefore _ ((positions_perm keys rows).trans hperm.symm) (pairwise_positions keys rows) hpairs
  rw [← map_positions, horder]

variable (keys rows)

theorem nodup_positions : (positions keys rows).Nodup :=
  (positions_perm keys rows).nodup_iff.mpr (List.nodup_finRange rows.length)

theorem length_positions : (positions keys rows).length = rows.length := by
  rw [(positions_perm keys rows).length_eq, List.length_finRange]

theorem sort_perm : (sort keys rows).Perm rows := by
  rw [sort_eq_mergeSort]
  exact List.mergeSort_perm _ _

theorem length_sort : (sort keys rows).length = rows.length := (sort_perm keys rows).length_eq

theorem length_slice_sort (start size : Nat) :
    (((sort keys rows).drop start).take size).length = min size (rows.length - start) := by
  rw [List.length_take, List.length_drop, length_sort]

theorem mem_sort {row : ρ} : row ∈ sort keys rows ↔ row ∈ rows := (sort_perm keys rows).mem_iff

theorem pairwise_sort : (sort keys rows).Pairwise fun a b => (compareRows keys a b).isLE = true := by
  rw [sort_eq_mergeSort]
  exact List.pairwise_mergeSort (isLE_trans _) (isLE_total _) rows

/-- Rows that are in order stay as they are. -/
theorem sort_of_pairwise {rows : List ρ} (h : rows.Pairwise fun a b => (compareRows keys a b).isLE = true) :
    sort keys rows = rows := by
  rw [sort_eq_mergeSort]
  exact List.mergeSort_of_pairwise h

/-- It makes no difference whether rows are sorted first or filtered first. -/
theorem filter_sort (p : ρ → Bool) : (sort keys rows).filter p = sort keys (rows.filter p) := by
  rw [sort_filter, ← map_positions, List.filter_map]
  rfl

end SortKey

/-! ### Stable sorting, without an algorithm -/

theorem ne_eq_of_pairwise {α : Type} {cmp : α → α → Ordering} [OrientedCmp cmp] {list : List α}
    (h : list.Pairwise fun a b => cmp a b ≠ .eq) {i j : Fin list.length} (hij : i ≠ j) :
    cmp (list.get i) (list.get j) ≠ .eq := by
  rcases Fin.lt_or_lt_of_ne hij with hlt | hgt
  · exact List.pairwise_iff_get.mp h i j hlt
  · intro heq
    exact List.pairwise_iff_get.mp h j i hgt (OrientedCmp.eq_symm heq)

section

variable {α : Type} (cmp : α → α → Ordering)

/-- The elements of a list that compare equal to one. -/
def equalTo (a : α) (list : List α) : List α := list.filter fun b => cmp a b == .eq

/--
A list has the elements of another one in ascending order, and those that compare equal in the order that
they had there.
-/
structure StablySorts (list sorted : List α) : Prop where
  perm : sorted.Perm list
  ascending : sorted.Pairwise fun a b => (cmp a b).isLE = true
  stable : ∀ a, equalTo cmp a sorted = equalTo cmp a list

variable {cmp} {a b : α} {list : List α}

theorem mem_equalTo : b ∈ equalTo cmp a list ↔ b ∈ list ∧ cmp a b = .eq := by
  rw [equalTo, List.mem_filter, beq_iff_eq]

theorem equalTo_cons_of_eq (h : cmp a b = .eq) : equalTo cmp a (b :: list) = b :: equalTo cmp a list :=
  List.filter_cons_of_pos (beq_iff_eq.mpr h)

theorem equalTo_cons_of_ne (h : cmp a b ≠ .eq) : equalTo cmp a (b :: list) = equalTo cmp a list :=
  List.filter_cons_of_neg (by rwa [beq_iff_eq])

theorem equalTo_append (a : α) (first second : List α) :
    equalTo cmp a (first ++ second) = equalTo cmp a first ++ equalTo cmp a second :=
  List.filter_append _ _

theorem equalTo_eq_nil (h : ∀ b ∈ list, cmp a b ≠ .eq) : equalTo cmp a list = [] :=
  List.eq_nil_iff_forall_not_mem.mpr fun b hb => h b (mem_equalTo.mp hb).1 (mem_equalTo.mp hb).2

variable [TransCmp cmp]

/-- Elements that compare equal to one another compare equal to the same elements. -/
theorem equalTo_congr (h : cmp a b = .eq) : equalTo cmp a list = equalTo cmp b list := by
  apply List.filter_congr
  intro c _
  rw [TransCmp.congr_left h]

/-- Among elements that are told apart, one that compares equal to another one is that. -/
theorem eq_of_pairwise_ne (h : list.Pairwise fun a b => cmp a b ≠ .eq) (ha : a ∈ list) (hb : b ∈ list)
    (hab : cmp a b = .eq) : a = b := by
  obtain ⟨i, rfl⟩ := List.mem_iff_get.mp ha
  obtain ⟨j, rfl⟩ := List.mem_iff_get.mp hb
  by_contra hne
  exact ne_eq_of_pairwise h (fun hij => hne (congrArg list.get hij)) hab

/-- Among elements that are told apart, at most one compares equal to another one. -/
theorem equalTo_eq_singleton (h : list.Pairwise fun a b => cmp a b ≠ .eq) (hb : b ∈ list)
    (hab : cmp a b = .eq) : equalTo cmp a list = [b] := by
  induction list with
  | nil => cases hb
  | cons c list ih =>
    obtain ⟨hfirst, hrest⟩ := List.pairwise_cons.mp h
    rcases List.mem_cons.mp hb with rfl | hb
    · rw [equalTo_cons_of_eq hab, equalTo_eq_nil fun c hc hac => ?_]
      exact hfirst c hc (TransCmp.eq_trans (OrientedCmp.eq_symm hab) hac)
    · rw [equalTo_cons_of_ne fun hac => ?_, ih hrest hb]
      exact hfirst b hb (TransCmp.eq_trans (OrientedCmp.eq_symm hac) hab)

theorem isLE_head (h : (b :: list).Pairwise fun a b => (cmp a b).isLE = true) (ha : a ∈ b :: list) :
    (cmp b a).isLE = true := by
  rcases List.mem_cons.mp ha with rfl | ha
  · exact ReflCmp.isLE_rfl
  · exact (List.pairwise_cons.mp h).1 a ha

theorem mem_of_equalTo_eq {other : List α} (h : equalTo cmp a list = equalTo cmp a other) (ha : a ∈ list) :
    a ∈ other := by
  have hself : a ∈ equalTo cmp a list := mem_equalTo.mpr ⟨ha, ReflCmp.compare_self⟩
  rw [h] at hself
  exact (mem_equalTo.mp hself).1

/-- An ascending list is determined by the parts of it that compare equal. -/
theorem eq_of_equalTo_eq {first second : List α}
    (hfirst : first.Pairwise fun a b => (cmp a b).isLE = true)
    (hsecond : second.Pairwise fun a b => (cmp a b).isLE = true)
    (h : ∀ a, equalTo cmp a first = equalTo cmp a second) : first = second := by
  induction first generalizing second with
  | nil =>
    cases second with
    | nil => rfl
    | cons b second => cases mem_of_equalTo_eq (h b).symm List.mem_cons_self
  | cons a first ih =>
    cases second with
    | nil => cases mem_of_equalTo_eq (h a) List.mem_cons_self
    | cons b second =>
      -- each of the heads is on the other list as well, so neither is greater than the other
      have heq : cmp a b = .eq := OrientedCmp.isLE_antisymm
        (isLE_head hfirst (mem_of_equalTo_eq (h b).symm List.mem_cons_self))
        (isLE_head hsecond (mem_of_equalTo_eq (h a) List.mem_cons_self))
      have hheads := h a
      rw [equalTo_cons_of_eq ReflCmp.compare_self, equalTo_cons_of_eq heq] at hheads
      obtain rfl := List.head_eq_of_cons_eq hheads
      have hrests (c : α) : equalTo cmp c first = equalTo cmp c second := by
        have hrest := h c
        by_cases hc : cmp c a = .eq
        · rw [equalTo_cons_of_eq hc, equalTo_cons_of_eq hc] at hrest
          exact List.tail_eq_of_cons_eq hrest
        · rwa [equalTo_cons_of_ne hc, equalTo_cons_of_ne hc] at hrest
      rw [ih (List.pairwise_cons.mp hfirst).2 (List.pairwise_cons.mp hsecond).2 hrests]

end

namespace SortKey

/-- Sorting by keys is stable, and no other list is a stable sort of the rows. -/
theorem stablySorts_iff {ρ : Type} [Row ρ] (keys : List SortKey) (rows sorted : List ρ) :
    StablySorts (compareRows keys) rows sorted ↔ sorted = sort keys rows := by
  have hsort : StablySorts (compareRows keys) rows (sort keys rows) := by
    refine ⟨sort_perm keys rows, pairwise_sort keys rows, fun a => ?_⟩
    -- rows that compare equal to one row are in order as they are
    have hequal : (equalTo (compareRows keys) a rows).Pairwise fun b c =>
        (compareRows keys b c).isLE = true := by
      refine List.pairwise_of_forall_mem_list fun b hb c hc => ?_
      have hba := OrientedCmp.eq_symm (mem_equalTo.mp hb).2
      rw [TransCmp.eq_trans hba (mem_equalTo.mp hc).2]
      rfl
    rw [equalTo, filter_sort]
    exact sort_of_pairwise keys hequal
  constructor
  · intro h
    apply eq_of_equalTo_eq h.ascending hsort.ascending
    intro a
    rw [h.stable, hsort.stable]
  · rintro rfl
    exact hsort

/-- Rows that are told apart have only one ascending arrangement. -/
theorem sort_eq_of_perm {ρ : Type} [Row ρ] (keys : List SortKey) {rows list : List ρ} (hperm : list.Perm rows)
    (hascending : list.Pairwise fun a b => (compareRows keys a b).isLE = true)
    (hdistinct : rows.Pairwise fun a b => compareRows keys a b ≠ .eq) : sort keys rows = list := by
  apply List.Perm.eq_of_pairwise ?_ (pairwise_sort keys rows) hascending
  · exact (sort_perm keys rows).trans hperm.symm
  · intro a b ha hb hab hba
    have heq : compareRows keys a b = .eq := OrientedCmp.isLE_antisymm hab hba
    exact eq_of_pairwise_ne hdistinct ((mem_sort keys rows).mp ha) (hperm.subset hb) heq

/-- How rows that are told apart are stored makes no difference to their order. -/
theorem sort_congr_perm {ρ : Type} [Row ρ] (keys : List SortKey) {first second : List ρ}
    (hperm : first.Perm second) (hdistinct : first.Pairwise fun a b => compareRows keys a b ≠ .eq) :
    sort keys first = sort keys second := by
  apply sort_eq_of_perm keys _ (pairwise_sort keys second) hdistinct
  exact (sort_perm keys second).trans hperm.symm

end SortKey

end Paging
