import Paging.Proofs.Paginator.Selection
import Paging.Proofs.Walk.Exact

/-!
Walks over rows that the sort field and the tie breaker tell apart. The token of a page carries the
value of its last row under the sort field alone, so the tie breaker orders the rows of a page but does
not say where the next page starts. Such a walk goes strictly upwards in the order of both fields, and
leaves out the rows that tie with the last row of a page and come after it.
-/

namespace Paging

open Std

variable {ρ : Type} [Row ρ]

namespace Request

variable (request : Request)

/--
Every row has a value under the sort field and the tie breaker, and no two rows compare equal under
both.
-/
structure TellsApart (rows : List ρ) : Prop where
  sorted : ∀ row ∈ rows, (Row.value? row request.sort.field).isSome = true
  broken : ∀ row ∈ rows, (Row.value? row request.tieBreaker.field).isSome = true
  distinct : rows.Pairwise fun a b => request.compareRows a b ≠ .eq

end Request

namespace Request

variable {request : Request} {rows : List ρ}

theorem precedes_iff (h : request.TellsApart rows) (i j : Fin rows.length) :
    SortKey.Precedes request.keys rows i j ↔ request.compareRows (rows.get i) (rows.get j) = .lt := by
  rw [SortKey.Precedes, StablyBefore, request.compareRows_keys]
  constructor
  · rintro (hless | ⟨heq, hlt⟩)
    · exact hless
    · exact absurd heq (ne_eq_of_pairwise h.distinct (Fin.ne_of_lt hlt))
  · exact Or.inl

theorem valueAt?_ne_none (h : request.TellsApart rows) (i : Fin rows.length) :
    request.valueAt? rows i ≠ none := by
  have hsome := h.sorted (rows.get i) (List.get_mem rows i)
  exact Option.isSome_iff_ne_none.mp hsome

/-- Rows that tie compare equal under the sort field. -/
theorem compareBy_eq_of_tied {i j : Fin rows.length} (htied : Visits.Tied (request.valueAt? rows) i j) :
    SortKey.compareBy request.sort (rows.get i) (rows.get j) = .eq := by
  obtain ⟨first, second, hfirst, hsecond, heq⟩ := htied
  rw [SortKey.compareBy_eq_iff]
  change SortKey.compareValues (request.valueAt? rows i) (request.valueAt? rows j) = .eq
  rw [hfirst, hsecond]
  exact heq

/-- The rows that a walk over rows told apart leaves out. -/
theorem notMem_flatten_iff (h : request.TellsApart rows) {limit : Nat} (hlimit : 0 < limit)
    {visits : List (List (Fin rows.length))}
    (hvisits : Visits limit request.sort (request.valueAt? rows) (SortKey.positions request.keys rows) visits)
    (i : Fin rows.length) :
    i ∉ visits.flatten ↔
      ∃ visit ∈ visits, ∃ j, visit.getLast? = some j ∧ request.compareRows (rows.get j) (rows.get i) = .lt ∧
        Visits.Tied (request.valueAt? rows) j i := by
  have hordered := SortKey.pairwise_positions request.keys rows
  constructor
  · intro hi
    obtain ⟨_, hnone | ⟨j, _, hnone⟩ | ⟨visit, hvisit, j, hlast, hbefore, htied⟩⟩ :=
      hvisits.leftOut_of_notMem hlimit hordered (fun _ _ => SortKey.isLE_of_precedes rows)
        (SortKey.mem_positions request.keys rows i) hi
    · exact absurd hnone (valueAt?_ne_none h i)
    · exact absurd hnone (valueAt?_ne_none h j)
    · exact ⟨visit, hvisit, j, hlast, (precedes_iff h j i).mp hbefore, htied⟩
  · rintro ⟨visit, hvisit, j, hlast, hless, htied⟩
    exact hvisits.notMem_of_tied hordered (SortKey.precedes_asymm request.keys rows) hvisit hlast
      ((precedes_iff h j i).mpr hless) htied

end Request

namespace Paginator

/-- A list without repetitions that has every position is an arrangement of the positions. -/
theorem perm_finRange_of_nodup {n : Nat} {list : List (Fin n)} (hnodup : list.Nodup) (hall : ∀ i, i ∈ list) :
    list.Perm (List.finRange n) := by
  rw [List.perm_ext_iff_of_nodup hnodup (List.nodup_finRange n)]
  exact fun i => iff_of_true (hall i) (List.mem_finRange i)

/--
A walk over JSON rows that are told apart goes upwards in the order of the sort field and the tie
breaker, and leaves out exactly the rows that come after the last row of some page and tie with it.
Where no two rows have equal sort values, nothing is left out.
-/
theorem walk_leaves_out_ties (paginator : Paginator) (table : Table Json.Object) (request : Request)
    (h : request.TellsApart table.rows) :
    let rows := table.rows
    let less (i j : Fin rows.length) : Prop := request.compareRows (rows.get i) (rows.get j) = .lt
    ∃ pages visits, Walked paginator table request pages visits ∧
      visits.flatten.Nodup ∧ visits.flatten.Pairwise less ∧
      (∀ i, i ∉ visits.flatten ↔
        ∃ visit ∈ visits, ∃ j, visit.getLast? = some j ∧ less j i ∧
          Visits.Tied (request.valueAt? rows) j i) ∧
      ((rows.Pairwise fun a b => SortKey.compareBy request.sort a b ≠ .eq) →
        visits.flatten.Perm (List.finRange rows.length)) := by
  intro rows less
  obtain ⟨pages, visits, hwalked, hvisits⟩ := exists_walked paginator table request
  have hlimit : 0 < request.pageSizeUnder paginator.policy := request.pageSizeUnder_pos paginator.policy
  have hout := Request.notMem_flatten_iff h hlimit hvisits
  have hnodup : visits.flatten.Nodup :=
    (SortKey.nodup_positions request.keys rows).sublist hvisits.flatten_sublist
  refine ⟨pages, visits, hwalked, hnodup, ?_, hout, fun hsort => ?_⟩
  · have hprecedes := (SortKey.pairwise_positions request.keys rows).sublist hvisits.flatten_sublist
    exact hprecedes.imp fun {i j} => (Request.precedes_iff h i j).mp
  · apply perm_finRange_of_nodup hnodup
    intro i
    by_contra hi
    obtain ⟨_, _, j, _, hless, htied⟩ := (hout i).mp hi
    have hne : j ≠ i := by
      rintro rfl
      have hself : request.compareRows (rows.get j) (rows.get j) = .eq := ReflCmp.compare_self
      exact absurd (hself.symm.trans hless) Ordering.noConfusion
    exact ne_eq_of_pairwise hsort hne (Request.compareBy_eq_of_tied htied)

/-- A row of an identifier and a rank. -/
def rankedRow (id rank : UInt64) : Json.Object :=
  [("id", .number (.ofWord id)), ("rank", .number (.ofWord rank))]

/-- Two rows of different rank, the higher one first. -/
def untiedTable : Table Json.Object := ⟨[rankedRow 1 7, rankedRow 2 5]⟩

theorem tellsApart_untiedTable : rankRequest.TellsApart untiedTable.rows where
  sorted := by decide +kernel
  broken := by decide +kernel
  distinct := by decide +kernel

/-- Two rows of the same rank. -/
def tiedTable : Table Json.Object := ⟨[rankedRow 1 5, rankedRow 2 5]⟩

theorem tellsApart_tiedTable : rankRequest.TellsApart tiedTable.rows where
  sorted := by decide +kernel
  broken := by decide +kernel
  distinct := by decide +kernel

def tiedFirst : Fin tiedTable.rows.length := ⟨0, by decide⟩

def tiedSecond : Fin tiedTable.rows.length := ⟨1, by decide⟩

theorem positions_tiedTable : SortKey.positions rankRequest.keys tiedTable.rows = [tiedFirst, tiedSecond] := by
  have hsorted : (List.finRange tiedTable.rows.length).Pairwise fun i j =>
      (SortKey.compareRows rankRequest.keys (tiedTable.rows.get i) (tiedTable.rows.get j)).isLE = true := by
    decide +kernel
  exact List.mergeSort_of_pairwise hsorted

theorem tied_tiedTable : Visits.Tied (rankRequest.valueAt? tiedTable.rows) tiedFirst tiedSecond :=
  ⟨.int 5, .int 5, by decide +kernel⟩

/-- The walk ends before the second row. -/
theorem length_flatten_tiedTable {pages : List (Page Json.Object)}
    {visits : List (List (Fin tiedTable.rows.length))}
    (h : Walked default tiedTable rankRequest pages visits) : visits.flatten.length ≠ 2 := by
  obtain ⟨pages', visits', hwalked, hvisits⟩ := exists_walked default tiedTable rankRequest
  have hpages : pages = pages' :=
    Except.ok.inj ((h.walk_eq _ (Nat.le_refl _)).symm.trans (hwalked.walk_eq _ (Nat.le_refl _)))
  have hlength : visits.flatten.length = visits'.flatten.length := by
    have hitems := h.items_flatten.symm.trans (hpages ▸ hwalked.items_flatten)
    have hsame := congrArg List.length hitems
    rwa [List.length_map, List.length_map] at hsame
  have hfirst : [tiedFirst] ∈ visits' := by
    apply List.mem_of_mem_head?
    rw [hvisits.head?_eq, positions_tiedTable]
    rfl
  have hmissed : tiedSecond ∉ visits'.flatten := by
    rw [Request.notMem_flatten_iff tellsApart_tiedTable (rankRequest.pageSizeUnder_pos _) hvisits]
    exact ⟨_, hfirst, _, rfl, by decide +kernel, tied_tiedTable⟩
  have hsublist := hvisits.flatten_sublist
  rw [positions_tiedTable] at hsublist
  intro htwo
  rw [hsublist.eq_of_length (hlength.symm.trans htwo)] at hmissed
  exact hmissed (List.mem_cons_of_mem _ List.mem_cons_self)

/-- Neither row comes before the first one. -/
theorem not_less_tiedFirst (i : Fin tiedTable.rows.length) :
    rankRequest.compareRows (tiedTable.rows.get i) (tiedTable.rows.get tiedFirst) ≠ .lt := by
  revert i
  decide +kernel

/-- Where the ranks differ the walk visits all rows. Where they tie it visits the first one and leaves out the other. -/
theorem walk_around_ties :
    (∃ pages visits, Walked default untiedTable rankRequest pages visits ∧
      visits.flatten.Perm (List.finRange untiedTable.rows.length)) ∧
    ∃ pages visits, Walked default tiedTable rankRequest pages visits ∧
      tiedFirst ∈ visits.flatten ∧ tiedSecond ∉ visits.flatten := by
  constructor
  · obtain ⟨pages, visits, hwalked, _, _, _, hall⟩ :=
      walk_leaves_out_ties default untiedTable rankRequest tellsApart_untiedTable
    exact ⟨pages, visits, hwalked, hall (by decide +kernel)⟩
  · obtain ⟨pages, visits, hwalked, hnodup, _, hout, _⟩ :=
      walk_leaves_out_ties default tiedTable rankRequest tellsApart_tiedTable
    -- nothing comes before the first row, so no page leaves it out
    have hfirst : tiedFirst ∈ visits.flatten := by
      by_contra hmissed
      obtain ⟨_, _, j, _, hless, _⟩ := (hout tiedFirst).mp hmissed
      exact absurd hless (not_less_tiedFirst j)
    refine ⟨pages, visits, hwalked, hfirst, fun hsecond => length_flatten_tiedTable hwalked ?_⟩
    have hall : ∀ i, i ∈ visits.flatten := Fin.forall_fin_two.mpr ⟨hfirst, hsecond⟩
    exact (perm_finRange_of_nodup hnodup hall).length_eq

/-- Telling the rows apart does not make a walk visit all of them. -/
theorem not_walk_visits_all :
    ¬∀ (paginator : Paginator) (table : Table Json.Object) (request : Request),
      request.TellsApart table.rows → ∃ pages visits, Walked paginator table request pages visits ∧
        visits.flatten.Perm (List.finRange table.rows.length) ∧
        visits.flatten.Pairwise fun i j => request.compareRows (table.rows.get i) (table.rows.get j) = .lt := by
  intro hall
  obtain ⟨pages, visits, hwalked, hperm, _⟩ := hall default tiedTable rankRequest tellsApart_tiedTable
  exact length_flatten_tiedTable hwalked hperm.length_eq

end Paginator

end Paging
