import Paging.Proofs.Paginator.Failures
import Paging.Proofs.Table.Evaluation

/-!
Sort keys that make no difference. Queries whose keys compare all rows alike go alike, so that what they fetch and
the pages of them are the same. A further key makes no difference exactly if an earlier one names its field, in
whichever direction; a paginator leaves out no more than such a key.
-/

namespace Paging

namespace Table.Query

variable {ρ : Type} [Row ρ]

/-- Two queries that differ at most in their sort keys, which compare all rows alike. -/
def SameOrder (here there : Query ρ) : Prop :=
  ∃ keys, there = { here with keys := keys } ∧
    ∀ a b : ρ, SortKey.compareRows here.keys a b = SortKey.compareRows keys a b

/-- Nothing that a query is told besides has to do with its sort keys. -/
theorem SameOrder.tell {here there : Query ρ} (h : SameOrder here there) (tell : Query ρ → Query ρ)
    (hkeeps : ∀ query keys, tell { query with keys := keys } = { tell query with keys := keys }) :
    SameOrder (tell here) (tell there) := by
  obtain ⟨keys, rfl, horder⟩ := h
  have hself := hkeeps here here.keys
  have hkeys : (tell here).keys = here.keys := (congrArg Query.keys hself).trans rfl
  refine ⟨keys, hkeeps here keys, ?_⟩
  rwa [hkeys]

theorem SameOrder.thenBy {here there : Query ρ} (h : SameOrder here there) (key : SortKey) :
    SameOrder (here.thenBy key) (there.thenBy key) := by
  obtain ⟨keys, rfl, horder⟩ := h
  refine ⟨keys ++ [key], rfl, fun a b => ?_⟩
  rw [Query.thenBy, SortKey.compareRows_append, SortKey.compareRows_append, horder]

theorem SameOrder.failure_eq {here there : Query ρ} (h : SameOrder here there) : here.failure = there.failure := by
  obtain ⟨keys, rfl, _⟩ := h
  rfl

theorem SameOrder.page_eq {here there : Query ρ} (h : SameOrder here there) : here.page = there.page := by
  obtain ⟨keys, rfl, horder⟩ := h
  rw [Query.page_eq, Query.page_eq, SortKey.sort_congr horder]
  rfl

theorem alike_sameOrder : Source.Alike (SameOrder (ρ := ρ)) where
  restrict h filter := h.tell (restrict · filter) fun _ _ => rfl
  orderBy := by
    rintro here _ ⟨keys, rfl, _⟩ key
    exact ⟨[key], rfl, fun _ _ => rfl⟩
  thenBy h key := h.thenBy key
  setLimit h limit := h.tell (withLimit · limit) fun _ _ => rfl
  setSkip h skip := h.tell (withSkip · skip) fun _ _ => rfl
  setTake h take := h.tell (withTake · take) fun _ _ => rfl
  fetch h := fetch_eq_of_page_eq h.failure_eq h.page_eq

/-- Counting does not look at the sort keys, and leaves a query as it is. -/
theorem countedAlike_sameOrder {here there : Query ρ} (h : SameOrder here there) :
    Source.CountedAlike SameOrder here there where
  told := by
    obtain ⟨keys, rfl, _⟩ := h
    rfl
  after := h

theorem sameOrder_thenBy (query : Query ρ) {key : SortKey} (hnamed : key.field ∈ query.keys.map SortKey.field) :
    SameOrder query (query.thenBy key) :=
  ⟨query.keys ++ [key], rfl, fun a b => (SortKey.compareRows_append_of_named hnamed a b).symm⟩

end Table.Query

/-- A row with a value of one field and of no other. -/
def TypedRow.ofField (field : String) (value : Scalar) : TypedRow := ⟨0, [(field, value)]⟩

theorem TypedRow.value?_ofField (field other : String) (value : Scalar) :
    Row.value? (ofField field value) other = if other = field then some value else none := by
  change List.lookup other [(field, value)] = _
  split
  · rename_i hother
    rw [hother, List.lookup_cons_self]
  · rename_i hother
    rw [List.lookup_cons, beq_false_of_ne hother]
    rfl

namespace SortKey

theorem compareBy_ofField (key : SortKey) (a b : Scalar) :
    compareBy key (TypedRow.ofField key.field a) (TypedRow.ofField key.field b) =
      key.direction.apply (compare a b) := by
  rw [compareBy, TypedRow.value?_ofField, TypedRow.value?_ofField, if_pos rfl, if_pos rfl, compareValues]

/-- Each key turns round two rows that have no values of other fields. -/
theorem exists_turned (key : SortKey) : ∃ a b : TypedRow, compareBy key a b = .gt ∧
    ∀ field ≠ key.field, Row.value? a field = none ∧ Row.value? b field = none := by
  have hothers (value : Scalar) (field : String) (hfield : field ≠ key.field) :
      Row.value? (TypedRow.ofField key.field value) field = none := by
    rw [TypedRow.value?_ofField, if_neg hfield]
  cases hdirection : key.direction with
  | ascending =>
    have hturned := key.compareBy_ofField (.bool true) (.bool false)
    rw [hdirection] at hturned
    exact ⟨_, _, hturned, fun field hfield => ⟨hothers _ field hfield, hothers _ field hfield⟩⟩
  | descending =>
    have hturned := key.compareBy_ofField (.bool false) (.bool true)
    rw [hdirection] at hturned
    exact ⟨_, _, hturned, fun field hfield => ⟨hothers _ field hfield, hothers _ field hfield⟩⟩

/-- A further key on a field that no earlier one names changes what is fetched of some rows. -/
theorem exists_fetch_ne {keys : List SortKey} {key : SortKey} (hnew : key.field ∉ keys.map SortKey.field) :
    ∃ query : Table.Query TypedRow, query.keys = keys ∧
      (Source.fetch (query.thenBy key)).value.1 ≠ (Source.fetch query).value.1 := by
  obtain ⟨a, b, hturned, hothers⟩ := key.exists_turned
  -- the rows have no values of the fields that are named, so the earlier keys leave them as they are stored
  have hequal : compareRows keys a b = .eq := by
    rw [compareRows_eq_eq_iff]
    intro field hfield
    obtain ⟨ha, hb⟩ := hothers field fun hsame => hnew (hsame ▸ hfield)
    rw [ha, hb]
    rfl
  let query : Table.Query TypedRow := { rows := [a, b], keys := keys }
  have hfetches : query.failure ≠ some .execute := nofun
  have hfurther : (query.thenBy key).failure ≠ some .execute := nofun
  refine ⟨query, rfl, fun hfetch => ?_⟩
  rw [Table.Query.value_fetch hfurther, Table.Query.value_fetch hfetches] at hfetch
  exact sort_append_ne hequal hturned (Except.ok.inj hfetch)

/--
A further sort key never changes what is fetched, whatever the rows and the rest of the query are, exactly if an
earlier key names its field. So the tie breaker that a paginator leaves out, as it names the sort field, would make
no difference to any page.
-/
theorem redundant_iff_named (keys : List SortKey) (key : SortKey) :
    (key.field ∈ keys.map SortKey.field ↔
      ∀ (ρ : Type) [Row ρ] (query : Table.Query ρ), query.keys = keys →
        (Source.fetch (query.thenBy key)).value.1 = (Source.fetch query).value.1) ∧
    ∀ (ρ : Type) [Row ρ] (paginator : Paginator) (query : Table.Query ρ) (request : Request),
      (paginator.paginate query request).value.1 =
        paginator.pageInOrder ((query.orderBy request.sort).thenBy request.tieBreaker) request := by
  refine ⟨⟨?_, ?_⟩, ?_⟩
  · rintro hnamed ρ _ query rfl
    exact (Table.Query.alike_sameOrder.fetch (query.sameOrder_thenBy hnamed)).symm
  · intro hredundant
    by_contra hnew
    obtain ⟨query, hkeys, hfetch⟩ := exists_fetch_ne hnew
    exact hfetch (hredundant TypedRow query hkeys)
  · intro ρ _ paginator query request
    rw [paginator.paginate_eq_pageInOrder]
    unfold Paginator.ordered
    split
    · rename_i hfield
      have hnamed : request.tieBreaker.field ∈ (query.orderBy request.sort).keys.map SortKey.field :=
        List.mem_singleton.mpr hfield
      have hsame := (query.orderBy request.sort).sameOrder_thenBy hnamed
      apply Table.Query.alike_sameOrder.pageInOrder hsame request paginator
      intro _
      exact Table.Query.countedAlike_sameOrder (Table.Query.alike_sameOrder.counting hsame request paginator)
    · -- a tie breaker under another field is not left out
      rfl

/-- A query of ranks that are equal in the order, an integer and a float, and of rows without a rank. -/
def tiedRanks : Table.Query TypedRow :=
  { rows := [⟨0, [("rank", .int 1)]⟩, ⟨1, [("rank", .float (.ofBits 0x3FF0000000000000))]⟩, ⟨2, []⟩, ⟨3, []⟩]
    keys := [.asc "rank"]
    skip := some 1 }

theorem fetch_tiedRanks :
    (Source.fetch tiedRanks).value.1 =
      .ok [⟨1, [("rank", .float (.ofBits 0x3FF0000000000000))]⟩, ⟨2, []⟩, ⟨3, []⟩] := by
  have hfetches : tiedRanks.failure ≠ some .execute := nofun
  have hsort : sort tiedRanks.keys tiedRanks.matching = tiedRanks.rows := by
    apply sort_of_pairwise
    decide +kernel
  rw [Table.Query.value_fetch hfetches, Table.Query.page_eq, hsort]
  rfl

/-- Going down the ranks that an earlier key goes up leaves equal ranks, and rows without one, as they are stored. -/
theorem redundant_tiedRanks :
    "rank" ∈ tiedRanks.keys.map SortKey.field ∧
      (Source.fetch (tiedRanks.thenBy (.desc "rank"))).value.1 =
        .ok [⟨1, [("rank", .float (.ofBits 0x3FF0000000000000))]⟩, ⟨2, []⟩, ⟨3, []⟩] := by
  obtain ⟨hredundant, _⟩ := redundant_iff_named tiedRanks.keys (.desc "rank")
  have hnamed : "rank" ∈ tiedRanks.keys.map SortKey.field := by decide
  exact ⟨hnamed, (hredundant.mp hnamed TypedRow tiedRanks rfl).trans fetch_tiedRanks⟩

end SortKey

end Paging
