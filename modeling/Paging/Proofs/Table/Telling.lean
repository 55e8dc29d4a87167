import Paging.Proofs.Filter.Boundary
import Paging.Proofs.Table.Evaluation

/-!
Queries in the making. A step adds a filter, orders the rows, or sets something else anew, so that all there is to
know of a query are its filters as a set, the steps that ordered it, and what was set last. In which order it was
told the rest makes no difference to what it counts and fetches.
-/

namespace Paging

open Std

namespace RangeFilter

/-- Whether two filters have the same field and comparison, and values that are equal in order. -/
def Same (a b : RangeFilter) : Bool :=
  a.field == b.field && a.comparison == b.comparison && a.value.Same b.value

theorem same_iff {a b : RangeFilter} :
    a.Same b = true ↔ a.field = b.field ∧ a.comparison = b.comparison ∧ compare a.value b.value = .eq := by
  simp only [Same, Scalar.Same, Bool.and_eq_true, beq_iff_eq, and_assoc]

theorem keeps_eq_of_same {ρ : Type} [Row ρ] {a b : RangeFilter} (h : a.Same b = true) (row : ρ) :
    a.keeps row = b.keeps row := by
  obtain ⟨hfield, hcomparison, hvalue⟩ := same_iff.mp h
  have hcompare (scalar : Scalar) : compare scalar a.value = compare scalar b.value := TransCmp.congr_right hvalue
  unfold keeps admits
  simp only [hfield, hcomparison, hcompare]

end RangeFilter

namespace Table.Query

/-- The numbers that bound the result of a query. -/
inductive Bound
  | limit
  | offset
  | skip
  | take
  deriving DecidableEq

/-- What a query is told, one thing at a time. -/
inductive Step
  | restrict (filter : RangeFilter)
  | orderBy (key : SortKey)
  | thenBy (key : SortKey)
  | bound (bound : Bound) (count : Nat)
  | withoutCount
  | failing (operation : Operation)
  deriving DecidableEq

namespace Step

def filter? : Step → Option RangeFilter
  | .restrict filter => some filter
  | _ => none

/-- Whether a step is about the order of rows. -/
def orders : Step → Bool
  | .orderBy _ => true
  | .thenBy _ => true
  | _ => false

/-- The sort keys after a step. -/
def keysAfter (keys : List SortKey) : Step → List SortKey
  | .orderBy key => [key]
  | .thenBy key => keys ++ [key]
  | _ => keys

def bound? (bound : Bound) : Step → Option Nat
  | .bound other count => if other = bound then some count else none
  | _ => none

def failure? : Step → Option Operation
  | .failing operation => some operation
  | _ => none

/-- What was set last, where each step sets something or leaves it as it is. -/
def last? {α : Type} (sets? : Step → Option α) (steps : List Step) : Option α :=
  (steps.filterMap sets?).getLast?

theorem last?_append {α : Type} (sets? : Step → Option α) (steps : List Step) (step : Step) :
    last? sets? (steps ++ [step]) = (sets? step).or (last? sets? steps) := by
  rw [last?, List.filterMap_append, List.getLast?_append]
  cases hsets : sets? step with
  | none => simp [hsets, last?]
  | some value => simp [hsets]

/-- A step that is not about the order leaves the sort keys as they are. -/
theorem foldl_keysAfter (keys : List SortKey) (steps : List Step) (step : Step) :
    ((steps ++ [step]).filter orders).foldl keysAfter keys =
      step.keysAfter ((steps.filter orders).foldl keysAfter keys) := by
  rw [List.filter_append, List.foldl_append]
  cases step <;> rfl

/--
Two ways to tell a query the same: with the same filters in any order and number, the same steps about the order
of rows, and the same bounds and failure set last. Either both tell it to do without counting or neither does.
-/
structure Agree (first second : List Step) : Prop where
  covers : ∀ filter ∈ first.filterMap filter?, ∃ other ∈ second.filterMap filter?, filter.Same other = true
  covered : ∀ filter ∈ second.filterMap filter?, ∃ other ∈ first.filterMap filter?, filter.Same other = true
  orders : first.filter orders = second.filter orders
  bounds (bound : Bound) : last? (bound? bound) first = last? (bound? bound) second
  failure : last? failure? first = last? failure? second
  uncounted : .withoutCount ∈ first ↔ .withoutCount ∈ second

end Step

variable {ρ : Type}

def bound? (query : Query ρ) : Bound → Option Nat
  | .limit => query.limit
  | .offset => query.offset
  | .skip => query.skip
  | .take => query.take

def withBound (query : Query ρ) (count : Nat) : Bound → Query ρ
  | .limit => query.withLimit count
  | .offset => query.withOffset count
  | .skip => query.withSkip count
  | .take => query.withTake count

def tell (query : Query ρ) : Step → Query ρ
  | .restrict filter => query.restrict filter
  | .orderBy key => query.orderBy key
  | .thenBy key => query.thenBy key
  | .bound bound count => query.withBound count bound
  | .withoutCount => query.withoutCount
  | .failing operation => query.failing operation

def tellAll (query : Query ρ) (steps : List Step) : Query ρ := steps.foldl tell query

/-- All there is to know of a query that was told some steps, beginning with `start`. -/
structure Made (start : Query ρ) (steps : List Step) (query : Query ρ) : Prop where
  rows : query.rows = start.rows
  filters : query.filters = start.filters ++ steps.filterMap Step.filter?
  keys : query.keys = (steps.filter Step.orders).foldl Step.keysAfter start.keys
  bounds (bound : Bound) : query.bound? bound = (Step.last? (Step.bound? bound) steps).or (start.bound? bound)
  failure : query.failure = (Step.last? Step.failure? steps).or start.failure
  countable : query.countable = (start.countable && !steps.contains .withoutCount)

theorem Made.refl (start : Query ρ) : Made start [] start where
  rows := rfl
  filters := (List.append_nil _).symm
  keys := rfl
  bounds _ := rfl
  failure := rfl
  countable := (Bool.and_true _).symm

theorem bound?_tell (query : Query ρ) (step : Step) (bound : Bound) :
    (query.tell step).bound? bound = (step.bound? bound).or (query.bound? bound) := by
  cases step with
  | bound other count => cases other <;> cases bound <;> rfl
  | _ => rfl

theorem Made.tell {start query : Query ρ} {steps : List Step} (h : Made start steps query) (step : Step) :
    Made start (steps ++ [step]) (query.tell step) where
  rows := by
    rw [← h.rows]
    cases step with
    | bound other count => cases other <;> rfl
    | _ => rfl
  filters := by
    rw [List.filterMap_append, ← List.append_assoc, ← h.filters]
    cases step with
    | bound other count => cases other <;> exact (List.append_nil _).symm
    | restrict filter => rfl
    | _ => exact (List.append_nil _).symm
  keys := by
    rw [Step.foldl_keysAfter, ← h.keys]
    cases step with
    | bound other count => cases other <;> rfl
    | _ => rfl
  bounds bound := by
    rw [Step.last?_append, Option.or_assoc, ← h.bounds, bound?_tell]
  failure := by
    rw [Step.last?_append, Option.or_assoc, ← h.failure]
    cases step with
    | bound other count => cases other <;> rfl
    | _ => rfl
  countable := by
    rw [List.contains_append, Bool.not_or, ← Bool.and_assoc, ← h.countable]
    cases step with
    | bound other count => cases other <;> exact (Bool.and_true _).symm
    | withoutCount => exact (Bool.and_false _).symm
    | _ => exact (Bool.and_true _).symm

theorem Made.tellAll {start query : Query ρ} {before : List Step} (h : Made start before query) (steps : List Step) :
    Made start (before ++ steps) (query.tellAll steps) := by
  induction steps generalizing before query with
  | nil =>
    rw [List.append_nil]
    exact h
  | cons step steps ih =>
    rw [List.append_cons]
    exact ih (h.tell step)

/-- Queries that ask for the same, though their filters may be written in different ways. -/
structure AsksSame [Row ρ] (here there : Query ρ) : Prop where
  rows : here.rows = there.rows
  keeps (row : ρ) : (∀ filter ∈ here.filters, filter.keeps row = true) ↔ ∀ filter ∈ there.filters, filter.keeps row = true
  keys : here.keys = there.keys
  bounds (bound : Bound) : here.bound? bound = there.bound? bound
  failure : here.failure = there.failure
  countable : here.countable = there.countable

section

variable [Row ρ]

namespace AsksSame

variable {here there : Query ρ} (h : here.AsksSame there)
include h

theorem matching_eq : here.matching = there.matching := by
  rw [here.matching_eq, there.matching_eq, h.rows]
  simp only [h.keeps]

theorem page_eq : here.page = there.page := by
  have hstart : here.start = there.start := congrArg₂ (fun skip offset => (skip.or offset).getD 0)
    (h.bounds .skip) (h.bounds .offset)
  have hsize : here.size? = there.size? := congrArg₂ Option.or (h.bounds .take) (h.bounds .limit)
  rw [here.page_eq, there.page_eq, h.matching_eq, h.keys, hstart, hsize]

theorem count_eq : here.count = there.count := by
  simp only [count, fault?, h.countable, h.failure, h.matching_eq]

theorem fetch_eq : (Source.fetch here).value.1 = (Source.fetch there).value.1 :=
  fetch_eq_of_page_eq h.failure h.page_eq

theorem fetchCounted_eq : (Source.fetchCounted here).value.1 = (Source.fetchCounted there).value.1 := by
  by_cases hfails : here.failure = some .execute
  · rw [value_fetchCounted_of_failing hfails, value_fetchCounted_of_failing (h.failure ▸ hfails)]
  · rw [value_fetchCounted_of_fetching hfails, value_fetchCounted_of_fetching (h.failure ▸ hfails), h.count_eq,
      h.page_eq]

end AsksSame

/-- Filters that are covered by others keep the rows that these keep. -/
theorem keeps_of_covers {filters others : List RangeFilter} {row : ρ}
    (hcovers : ∀ filter ∈ filters, ∃ other ∈ others, filter.Same other = true)
    (hkeeps : ∀ other ∈ others, other.keeps row = true) : ∀ filter ∈ filters, filter.keeps row = true := by
  intro filter hfilter
  obtain ⟨other, hother, hsame⟩ := hcovers filter hfilter
  rw [RangeFilter.keeps_eq_of_same hsame]
  exact hkeeps other hother

theorem asksSame_of_agree (query : Query ρ) {first second : List Step} (h : Step.Agree first second) :
    (query.tellAll first).AsksSame (query.tellAll second) := by
  have hfirst : Made query first (query.tellAll first) := (Made.refl query).tellAll first
  have hsecond : Made query second (query.tellAll second) := (Made.refl query).tellAll second
  constructor
  case rows => rw [hfirst.rows, hsecond.rows]
  case keeps =>
    intro row
    rw [hfirst.filters, hsecond.filters, List.forall_mem_append, List.forall_mem_append]
    exact and_congr_right fun _ => ⟨keeps_of_covers h.covered, keeps_of_covers h.covers⟩
  case keys => rw [hfirst.keys, hsecond.keys, h.orders]
  case bounds =>
    intro bound
    rw [hfirst.bounds, hsecond.bounds, h.bounds]
  case failure => rw [hfirst.failure, hsecond.failure, h.failure]
  case countable =>
    have huncounted : first.contains .withoutCount = second.contains .withoutCount := by
      rw [Bool.eq_iff_iff, List.contains_iff_mem, List.contains_iff_mem]
      exact h.uncounted
    rw [hfirst.countable, hsecond.countable, huncounted]

/--
A query that is told the same in another order counts the same, fetches the same rows or fails in the same way, and
does so when it fetches and counts at once. The steps that order its rows are all that must keep their order; of
bounds and failures the last of each kind counts, and repeating a filter changes nothing.
-/
theorem results_of_agree (query : Query ρ) {first second : List Step} (h : Step.Agree first second) :
    (Source.count (query.tellAll first)).value.1 = (Source.count (query.tellAll second)).value.1 ∧
      (Source.fetch (query.tellAll first)).value.1 = (Source.fetch (query.tellAll second)).value.1 ∧
      (Source.fetchCounted (query.tellAll first)).value.1 = (Source.fetchCounted (query.tellAll second)).value.1 := by
  have hsame := query.asksSame_of_agree h
  exact ⟨hsame.count_eq, hsame.fetch_eq, hsame.fetchCounted_eq⟩

/-- The same filter as an integer and as a float, orders and limits that are replaced, and a failure to count. -/
theorem results_of_agree_reordered :
    let first : List Step := [.restrict ⟨"rank", .greater, .int 2⟩, .failing .execute, .bound .limit 5,
      .orderBy (.asc "rank"), .orderBy (.desc "name"), .bound .limit 2, .thenBy (.asc "rank"), .failing .count]
    let second : List Step := [.bound .limit 2, .failing .count, .orderBy (.asc "rank"),
      .restrict ⟨"rank", .greater, .float (.ofBits 0x4000000000000000)⟩, .orderBy (.desc "name"),
      .thenBy (.asc "rank"), .restrict ⟨"rank", .greater, .int 2⟩]
    let query : Query TypedRow := Table.query ⟨namedQuery.rows⟩
    Step.Agree first second ∧
      (Source.count (query.tellAll first)).value.1 = .error (.injected .count) ∧
      (Source.fetch (query.tellAll first)).value.1 = (Source.fetch (query.tellAll second)).value.1 := by
  intro first second query
  have h : Step.Agree first second :=
    { covers := by decide +kernel
      covered := by decide +kernel
      orders := rfl
      bounds := by rintro (_ | _ | _ | _) <;> rfl
      failure := rfl
      uncounted := by decide }
  obtain ⟨hcount, hfetch, _⟩ := results_of_agree query h
  exact ⟨h, hcount.trans rfl, hfetch⟩

end

end Table.Query

end Paging
