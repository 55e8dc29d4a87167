import Paging.Proofs.Paginator.Bounds
import Paging.Proofs.Paginator.OffsetPage
import Paging.Proofs.Paginator.Selection
import Paging.Proofs.Table.Counting

/-!
When a page fails. A paginator passes on an error of fetching as it is and has none of its own: neither a token
that is no cursor nor a count that fails stops it. A page counts at most once, and a count that fails there tells as
little as one that is absent, so that two sources that go alike in all else have the same page.
-/

namespace Paging

theorem map_eq_error_iff {ε α β : Type} {result : Except ε α} {f : α → β} {error : ε} :
    result.map f = .error error ↔ result = .error error := by
  cases result with
  | error => simp [Except.map]
  | ok => simp [Except.map]

namespace Source

/-- What a count tells of the number of rows, which is nothing if it fails. -/
def told {ε : Type} : Except ε (Option Nat) → Option Nat
  | .ok total => total
  | .error _ => none

theorem told_eq_of_fails {ε : Type} {failing absent : Except ε (Option Nat)}
    (hfails : ∃ error, failing = .error error) (habsent : absent = .ok none) : told failing = told absent := by
  obtain ⟨error, rfl⟩ := hfails
  rw [habsent]
  rfl

variable {σ τ ρ ε : Type} [Source σ ρ ε] [Source τ ρ ε]

theorem value_countTolerantly (source : σ) (wanted : Bool) :
    (countTolerantly source wanted).value =
      if wanted then (told (count source).value.1, (count source).value.2) else (none, source) := by
  cases wanted with
  | false => rfl
  | true =>
    simp only [countTolerantly, if_true, Logged.value_bind]
    split
    · rename_i hcounted
      rw [hcounted]
      rfl
    · rename_i hcounted
      rw [hcounted]
      rfl

/--
Two kinds of sources go alike as long as they are told the same: what holds between them still holds after each
thing that a paginator tells them, and while it does they fetch the same. Counting is left open.
-/
structure Alike (alike : σ → τ → Prop) : Prop where
  restrict {s t} (h : alike s t) (filter : RangeFilter) : alike (restrict s filter) (restrict t filter)
  orderBy {s t} (h : alike s t) (key : SortKey) : alike (orderBy s key) (orderBy t key)
  thenBy {s t} (h : alike s t) (key : SortKey) : alike (thenBy s key) (thenBy t key)
  setLimit {s t} (h : alike s t) (limit : Nat) : alike (setLimit s limit) (setLimit t limit)
  setSkip {s t} (h : alike s t) (skip : Nat) : alike (setSkip s skip) (setSkip t skip)
  setTake {s t} (h : alike s t) (take : Nat) : alike (setTake s take) (setTake t take)
  fetch {s t} (h : alike s t) : (fetch s).value.1 = (fetch t).value.1

/-- Counting tells the same of one source as of another, and what holds between them holds of what it leaves. -/
structure CountedAlike (alike : σ → τ → Prop) (s : σ) (t : τ) : Prop where
  told : told (count s).value.1 = told (count t).value.1
  after : alike (count s).value.2 (count t).value.2

namespace Alike

variable {alike : σ → τ → Prop} (hsources : Alike alike) {s : σ} {t : τ} (h : alike s t) (request : Request)
include hsources h

theorem ordered : alike (Paginator.ordered s request) (Paginator.ordered t request) := by
  unfold Paginator.ordered
  split
  · exact hsources.orderBy h _
  · exact hsources.thenBy (hsources.orderBy h _) _

theorem seek :
    alike (Keyset.seek s request).value.1 (Keyset.seek t request).value.1 ∧
      (Keyset.seek s request).value.2 = (Keyset.seek t request).value.2 := by
  rw [Keyset.value_seek, Keyset.value_seek]
  cases request.boundary? with
  | none => exact ⟨h, rfl⟩
  | some boundary => exact ⟨hsources.restrict h _, rfl⟩

theorem counting (paginator : Paginator) :
    alike (paginator.counting s request) (paginator.counting t request) := by
  unfold Paginator.counting
  split
  · exact hsources.setTake (hsources.setSkip h _) _
  · exact (hsources.seek h request).1

theorem countingOrdered (paginator : Paginator) :
    alike (paginator.counting (Paginator.ordered s request) request)
      (paginator.counting (Paginator.ordered t request) request) :=
  hsources.counting (hsources.ordered h request) request paginator

omit hsources request in
theorem countTolerantly {wanted : Bool} (hcounted : wanted = true → CountedAlike alike s t) :
    (Source.countTolerantly s wanted).value.1 = (Source.countTolerantly t wanted).value.1 ∧
      alike (Source.countTolerantly s wanted).value.2 (Source.countTolerantly t wanted).value.2 := by
  rw [value_countTolerantly, value_countTolerantly]
  cases wanted with
  | false => exact ⟨rfl, h⟩
  | true => exact ⟨(hcounted rfl).told, (hcounted rfl).after⟩

theorem keysetPage [Row ρ] (limit : Nat) {counts : Bool}
    (hcounted : counts = true →
      CountedAlike alike (Keyset.seek s request).value.1 (Keyset.seek t request).value.1) :
    (Keyset.page s request limit counts).value.1 = (Keyset.page t request limit counts).value.1 := by
  obtain ⟨hsought, hprevious⟩ := hsources.seek h request
  obtain ⟨htotal, hleft⟩ := countTolerantly hsought hcounted
  have hfetched := hsources.fetch (hsources.setLimit hleft (limit + 1))
  rw [Keyset.value_page, Keyset.value_page]
  simp only [hprevious, htotal, hfetched]

omit request in
theorem offsetPage (offset limit : Nat) {counts : Bool}
    (hcounted : counts = true →
      CountedAlike alike (Source.setTake (Source.setSkip s offset) limit)
        (Source.setTake (Source.setSkip t offset) limit)) :
    (Paging.offsetPage s offset limit counts).value.1 = (Paging.offsetPage t offset limit counts).value.1 := by
  obtain ⟨htotal, hleft⟩ := countTolerantly (hsources.setTake (hsources.setSkip h offset) limit) hcounted
  have hfetched := hsources.fetch hleft
  rw [value_offsetPage, value_offsetPage]
  simp only [htotal, hfetched]

theorem pageInOrder [Row ρ] (paginator : Paginator)
    (hcounted : request.countsUnder paginator.policy = true →
      CountedAlike alike (paginator.counting s request) (paginator.counting t request)) :
    paginator.pageInOrder s request = paginator.pageInOrder t request := by
  unfold Paginator.counting at hcounted
  unfold Paginator.pageInOrder
  by_cases hmode : request.offsetMode = true
  · simp only [if_pos hmode] at hcounted ⊢
    exact hsources.offsetPage h _ _ hcounted
  · simp only [if_neg hmode] at hcounted ⊢
    exact hsources.keysetPage h request _ hcounted

/-- Sources that go alike have the same pages if counting makes no difference where a page counts. -/
theorem paginate [Row ρ] (paginator : Paginator)
    (hcounted : request.countsUnder paginator.policy = true →
      CountedAlike alike (paginator.counting (Paginator.ordered s request) request)
        (paginator.counting (Paginator.ordered t request) request)) :
    (paginator.paginate s request).value.1 = (paginator.paginate t request).value.1 := by
  rw [paginator.paginate_eq_pageInOrder, paginator.paginate_eq_pageInOrder]
  exact hsources.pageInOrder (hsources.ordered h request) request paginator hcounted

end Alike

/-- A source that is like the one it holds but has no count. To count it leaves what counting leaves of that one. -/
structure Untold (σ : Type) where
  source : σ

instance : Source (Untold σ) ρ ε where
  restrict untold filter := ⟨restrict untold.source filter⟩
  orderBy untold key := ⟨orderBy untold.source key⟩
  thenBy untold key := ⟨thenBy untold.source key⟩
  setLimit untold limit := ⟨setLimit untold.source limit⟩
  setOffset untold offset := ⟨setOffset untold.source offset⟩
  setSkip untold skip := ⟨setSkip untold.source skip⟩
  setTake untold take := ⟨setTake untold.source take⟩
  count untold := do
    let (_, source) ← count untold.source
    return (.ok none, ⟨source⟩)
  fetch untold := do
    let (rows, source) ← fetch untold.source
    return (rows, ⟨source⟩)
  errorText := errorText σ

/-- Whatever both are told, a source without its count stays the other one without its count. -/
theorem alike_untold : Alike fun (source : σ) (untold : Untold σ) => untold = ⟨source⟩ where
  restrict h filter := congrArg (restrict · filter) h
  orderBy h key := congrArg (orderBy · key) h
  thenBy h key := congrArg (thenBy · key) h
  setLimit h limit := congrArg (setLimit · limit) h
  setSkip h skip := congrArg (setSkip · skip) h
  setTake h take := congrArg (setTake · take) h
  fetch h := (congrArg (fun untold => (fetch untold).value.1) h).symm

end Source

namespace Paginator

/-- The source that the rows of a page are fetched from, once it was ordered, bounded and counted. -/
def asked {σ ρ ε : Type} [Source σ ρ ε] (paginator : Paginator) (source : σ) (request : Request) : σ :=
  let source := ordered source request
  let limit := request.pageSizeUnder paginator.policy
  let counts := request.countsUnder paginator.policy
  if request.offsetMode then
    (Source.countTolerantly (Source.setTake (Source.setSkip source request.skipped) limit) counts).value.2
  else Keyset.asked source request limit counts

/-- A page is made of what is fetched, and else there is the error of fetching. -/
theorem exists_make {σ ρ ε : Type} [Source σ ρ ε] [Row ρ] (paginator : Paginator) (source : σ)
    (request : Request) :
    ∃ make : List ρ → Page ρ, (paginator.paginate source request).value.1 =
      (Source.fetch (paginator.asked source request)).value.1.map make := by
  rw [value_paginate, asked]
  dsimp only
  split
  · rw [value_offsetPage]
    exact ⟨_, rfl⟩
  · obtain ⟨make, _, hpage⟩ := Keyset.exists_make (ordered source request) request
      (request.pageSizeUnder paginator.policy) (request.countsUnder paginator.policy)
    exact ⟨make, hpage⟩

end Paginator

namespace Table.Query

variable {ρ : Type}

/-- A query that fails to count, beside the same query without a count. -/
def SameButCount (failing absent : Query ρ) : Prop :=
  failing.countable = true ∧ failing.failure = some .count ∧
    ∃ failure ≠ some Operation.execute, absent = { failing with countable := false, failure := failure }

/-- Nothing that a query is told besides has to do with counting or failing. -/
theorem SameButCount.tell {failing absent : Query ρ} (h : SameButCount failing absent) (tell : Query ρ → Query ρ)
    (hkeeps : ∀ query countable failure, tell { query with countable := countable, failure := failure } =
      { tell query with countable := countable, failure := failure }) :
    SameButCount (tell failing) (tell absent) := by
  obtain ⟨hcountable, hfailure, failure, hfetches, rfl⟩ := h
  have hself := hkeeps failing failing.countable failing.failure
  refine ⟨?_, ?_, failure, hfetches, hkeeps failing false failure⟩
  · exact (congrArg countable hself).trans hcountable
  · exact (congrArg Query.failure hself).trans hfailure

variable [Row ρ]

theorem alike_sameButCount : Source.Alike (SameButCount (ρ := ρ)) where
  restrict h filter := h.tell (restrict · filter) fun _ _ _ => rfl
  orderBy h key := h.tell (orderBy · key) fun _ _ _ => rfl
  thenBy h key := h.tell (thenBy · key) fun _ _ _ => rfl
  setLimit h limit := h.tell (withLimit · limit) fun _ _ _ => rfl
  setSkip h skip := h.tell (withSkip · skip) fun _ _ _ => rfl
  setTake h take := h.tell (withTake · take) fun _ _ _ => rfl
  fetch := by
    rintro failing _ ⟨_, hfailure, failure, hfetches, rfl⟩
    have hfailing : failing.failure ≠ some .execute := by
      rw [hfailure]
      decide
    have habsent : ({ failing with countable := false, failure := failure } : Query ρ).failure ≠ some .execute :=
      hfetches
    rw [value_fetch hfailing, value_fetch habsent]
    rfl

theorem count_sameButCount {failing absent : Query ρ} (h : SameButCount failing absent) :
    (∃ error, (Source.count failing).value.1 = .error error) ∧ (Source.count absent).value.1 = .ok none := by
  obtain ⟨hcountable, hfailure, failure, _, rfl⟩ := h
  exact ⟨⟨_, count_eq_error_iff.mpr ⟨hcountable, hfailure, rfl⟩⟩, rfl⟩

/-- A paginator leaves what a query is to fail at as it is. -/
theorem failure_asked (paginator : Paginator) (query : Query ρ) (request : Request) :
    (paginator.asked query request).failure = query.failure := by
  unfold Paginator.asked
  dsimp only
  split
  · rw [setTake_setSkip, value_countTolerantly, failure_cut]
  · rw [Keyset.asked, Paginator.value_seek, value_countTolerantly]
    exact query.failure_sought request

end Table.Query

namespace Paginator

variable {ρ : Type} [Row ρ]

theorem paginate_query_eq_error_iff (paginator : Paginator) (query : Table.Query ρ) (request : Request)
    {error : QueryError} :
    (paginator.paginate query request).value.1 = .error error ↔
      query.failure = some .execute ∧ error = .injected .execute := by
  obtain ⟨make, hpage⟩ := paginator.exists_make query request
  rw [hpage, map_eq_error_iff, Table.Query.fetch_eq_error_iff, query.failure_asked paginator request]

/-- To fail at counting is the same to the pages of a query as to do without. -/
theorem paginate_failing_count (paginator : Paginator) {query : Table.Query ρ} (request : Request)
    (hcountable : query.countable = true) (hfetches : query.failure ≠ some .execute) :
    (paginator.paginate (query.failing .count) request).value.1 =
      (paginator.paginate query.withoutCount request).value.1 := by
  have hsame : (query.failing .count).SameButCount query.withoutCount :=
    ⟨hcountable, rfl, query.failure, hfetches, rfl⟩
  apply Table.Query.alike_sameButCount.paginate hsame
  intro _
  have hcounted := Table.Query.alike_sameButCount.countingOrdered hsame request paginator
  obtain ⟨hfails, habsent⟩ := Table.Query.count_sameButCount hcounted
  exact ⟨Source.told_eq_of_fails hfails habsent, hcounted⟩

/--
A page fails with an error exactly if fetching its rows fails with that error, whatever the cursor is and
whatever counting comes to. A source that fails to count where the page counts has the page that it has without a
count. So has any other source that goes alike and has no count there, if both counts leave sources that go alike.
-/
theorem paginate_fails_with_fetch {σ τ ρ ε : Type} [Source σ ρ ε] [Source τ ρ ε] [Row ρ] (paginator : Paginator)
    (source : σ) (request : Request) :
    let counts := request.countsUnder paginator.policy
    let counting := paginator.counting (ordered source request) request
    (∀ error, (paginator.paginate source request).value.1 = .error error ↔
      (Source.fetch (paginator.asked source request)).value.1 = .error error) ∧
    ((counts = true → ∃ error, (Source.count counting).value.1 = .error error) →
      (paginator.paginate source request).value.1 = (paginator.paginate (Source.Untold.mk source) request).value.1) ∧
    ∀ {alike : σ → τ → Prop} {other : τ}, Source.Alike alike → alike source other →
      let absent := paginator.counting (ordered other request) request
      (counts = true → (∃ error, (Source.count counting).value.1 = .error error) ∧
        (Source.count absent).value.1 = .ok none ∧
        alike (Source.count counting).value.2 (Source.count absent).value.2) →
      (paginator.paginate source request).value.1 = (paginator.paginate other request).value.1 := by
  intro counts counting
  refine ⟨?_, ?_, ?_⟩
  · intro error
    obtain ⟨make, hpage⟩ := paginator.exists_make source request
    rw [hpage]
    exact map_eq_error_iff
  · intro hfails
    have huntold := Source.alike_untold (σ := σ)
    have hsame : Source.Untold.mk source = ⟨source⟩ := rfl
    have hcounting : paginator.counting (ordered (Source.Untold.mk source) request) request = ⟨counting⟩ :=
      huntold.countingOrdered hsame request paginator
    apply huntold.paginate hsame request paginator
    intro hwanted
    rw [hcounting]
    exact ⟨Source.told_eq_of_fails (hfails hwanted) rfl, rfl⟩
  · intro alike other hsources h absent hcounts
    apply hsources.paginate h request paginator
    intro hwanted
    obtain ⟨hfails, habsent, hafter⟩ := hcounts hwanted
    exact ⟨Source.told_eq_of_fails hfails habsent, hafter⟩

/-- A query that cannot be counted once it is restricted. -/
structure Guarded (ρ : Type) where
  query : Table.Query ρ

instance {ρ : Type} [Row ρ] : Source (Guarded ρ) ρ QueryError where
  restrict guarded filter := ⟨guarded.query.restrict filter⟩
  orderBy guarded key := ⟨guarded.query.orderBy key⟩
  thenBy guarded key := ⟨guarded.query.thenBy key⟩
  setLimit guarded limit := ⟨guarded.query.withLimit limit⟩
  setOffset guarded offset := ⟨guarded.query.withOffset offset⟩
  setSkip guarded skip := ⟨guarded.query.withSkip skip⟩
  setTake guarded take := ⟨guarded.query.withTake take⟩
  count guarded :=
    return (if guarded.query.filters = [] then guarded.query.count else .error (.injected .count), guarded)
  fetch guarded := do return (← guarded.query.fetch, guarded)
  errorText := QueryError.message

/-- Ranks that can be counted as long as nothing restricts them. -/
def guardedRanks : Guarded TypedRow := ⟨Table.query ⟨uncountedQuery.rows⟩⟩

/--
The page after a token that is no cursor, of a query that fails to count, and the page after rank two, of a source
that fails to count no sooner than it is restricted to that.
-/
theorem paginate_fails_with_fetch_uncountedQuery :
    let request := rankRequest.withCursor "?"
    let uncounted := { uncountedQuery with countable := false, failure := none }
    let later := rankRequest.withCursor (Cursor.token ⟨"rank", .int 2⟩)
    (∀ error, ((default : Paginator).paginate uncountedQuery request).value.1 ≠ .error error) ∧
      ((default : Paginator).paginate uncountedQuery request).value.1 =
        ((default : Paginator).paginate uncounted request).value.1 ∧
      (Source.count guardedRanks).value.1 = .ok (some 4) ∧
      ((default : Paginator).paginate guardedRanks later).value.1 =
        ((default : Paginator).paginate (Source.Untold.mk guardedRanks) later).value.1 := by
  intro request uncounted later
  obtain ⟨hfails, _, hsame⟩ :=
    paginate_fails_with_fetch (τ := Table.Query TypedRow) default uncountedQuery request
  have hrelated : uncountedQuery.SameButCount uncounted := ⟨rfl, rfl, none, nofun, rfl⟩
  have hcounted := Table.Query.alike_sameButCount.countingOrdered hrelated request default
  obtain ⟨hcount, habsent⟩ := Table.Query.count_sameButCount hcounted
  have hboundary : later.boundary? = some (.int 2) := rankRequest.boundary?_withCursor (Cursor.ofToken?_token rfl)
  have hrestricted : (Source.count ((default : Paginator).counting (ordered guardedRanks later) later)).value.1 =
      .error (.injected .count) := by
    have hmode : later.offsetMode = false := rfl
    rw [counting, hmode, if_neg Bool.false_ne_true, Keyset.value_seek, hboundary]
    rfl
  obtain ⟨_, huntold, _⟩ := paginate_fails_with_fetch (τ := Guarded TypedRow) default guardedRanks later
  refine ⟨fun error h => ?_, ?_, by decide +kernel, huntold fun _ => ⟨_, hrestricted⟩⟩
  · rw [hfails, Table.Query.fetch_eq_error_iff, Table.Query.failure_asked] at h
    exact absurd h.1 (by decide)
  · exact hsame Table.Query.alike_sameButCount hrelated fun _ => ⟨hcount, habsent, hcounted⟩

end Paginator

end Paging
