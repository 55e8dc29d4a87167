import Paging.Proofs.Paginator.Failures

/-!
What a paginator tells of its pages in keyset mode. Each step of a page reports to whoever calls it, in the order
of the steps, and where the reports are delivered does not change what they say. So the events of a page can be
told from its request, from the count of its source and from the page itself.
-/

namespace Paging

namespace Diagnostic

/-- An event of a paginator or of its cursors. A span is no event. -/
def isPageEvent (diagnostic : Diagnostic) : Bool :=
  !diagnostic.isSpan && (diagnostic.target == .paginator || diagnostic.target == .cursor)

end Diagnostic

namespace Logged

variable {α β : Type}

/-- An action reports these diagnostics, in this order, and all of them to its caller. -/
def Says (action : Logged α) (diagnostics : List Diagnostic) : Prop :=
  action.reports = diagnostics.map (Report.mk .ambient)

theorem says_pure (value : α) : (pure value : Logged α).Says [] := rfl

theorem says_report (diagnostic : Diagnostic) : (report diagnostic).Says [diagnostic] := rfl

theorem Says.bind {action : Logged α} {next : α → Logged β} {first second : List Diagnostic}
    (haction : action.Says first) (hnext : (next action.value).Says second) :
    (action >>= next).Says (first ++ second) := by
  rw [Says, reports_bind, haction, hnext, List.map_append]

/-- An action that is followed by one that reports nothing. -/
theorem Says.bind_pure {action : Logged α} {f : α → β} {diagnostics : List Diagnostic}
    (haction : action.Says diagnostics) : (action >>= fun value => pure (f value)).Says diagnostics := by
  rw [← List.append_nil diagnostics]
  exact haction.bind (says_pure _)

/-- The events of pages that a listener hears. -/
def pageEvents (logged : Logged α) (listener : Listener) : List Diagnostic :=
  (logged.heardBy listener).filter Diagnostic.isPageEvent

end Logged

namespace Logging

/-- The listener that hears what is reported, if there is one. -/
def listener? : Logging → Option Listener
  | .ambient => some .ambient
  | .own => some .own
  | .silenced => none

theorem heardBy_deliver {α : Type} {logging : Logging} {listener : Listener} {action : Logged α}
    {diagnostics : List Diagnostic} (hlistener : logging.listener? = some listener)
    (hsaid : action.Says diagnostics) : (logging.deliver action).heardBy listener = diagnostics := by
  have hdelivered : (logging.deliver action).reports = diagnostics.map (Report.mk listener) := by
    cases logging with
    | ambient =>
      cases hlistener
      exact hsaid
    | own =>
      cases hlistener
      rw [deliver, hsaid, List.map_map]
      rfl
    | silenced => cases hlistener
  rw [Logged.heardBy, hdelivered, List.filter_map, List.map_map]
  simp [Function.comp_def]

end Logging

/-- What is told of the token of a request. -/
def Request.tokenEvents (request : Request) : List Diagnostic :=
  match request.cursor with
  | none => []
  | some token =>
    match (Cursor.decode token).value with
    | none => [.tokenRejected token.utf8ByteSize, .cursorIgnored]
    | some cursor =>
      (if cursor.field = request.sort.field then []
        else [.cursorOfOtherField cursor.field request.sort.field]) ++
        [.boundaryApplied (RangeFilter.after request.sort cursor.value)]

/-- What is told of the count of a query. -/
def Table.Query.countEvents {ρ : Type} [Row ρ] (query : Table.Query ρ) : List Diagnostic :=
  match query.count with
  | .error error => [.countFailed error.message]
  | .ok _ => []

/-- What is told of the rows that a query fetches. -/
def Table.Query.fetchEvents {ρ : Type} [Row ρ] (query : Table.Query ρ) : List Diagnostic :=
  match query.fetch.value with
  | .ok rows => [.queryExecuted query.filters.length query.keys.length rows.length]
  | .error _ => []

/-- The number of cursors that a page lacks although it has a neighbour on their side and a row to begin from. -/
def Page.absentCursors {ρ : Type} (page : Page ρ) : Nat :=
  (page.hasNext && page.nextCursor.isNone && !page.isEmpty).toNat +
    (page.hasPrevious && page.previousCursor.isNone && !page.isEmpty).toNat

/-- What is told of a page that was made of so many rows, fetched for a page of at most `limit`. -/
def Page.events {ρ : Type} (page : Page ρ) (field : String) (limit fetched : Nat) : List Diagnostic :=
  List.replicate page.absentCursors (.boundaryMissing field) ++
    [.keysetPage limit fetched page.items.length page.hasNext page.hasPrevious page.totalCount]

/-! All of these are events of pages, but for those of a table. -/

theorem Request.filter_tokenEvents (request : Request) :
    request.tokenEvents.filter Diagnostic.isPageEvent = request.tokenEvents := by
  unfold tokenEvents
  cases request.cursor with
  | none => rfl
  | some token =>
    dsimp only
    split
    · rfl
    · split <;> rfl

theorem Table.Query.filter_countEvents {ρ : Type} [Row ρ] (query : Table.Query ρ) :
    query.countEvents.filter Diagnostic.isPageEvent = query.countEvents := by
  unfold countEvents
  split <;> rfl

theorem Table.Query.filter_fetchEvents {ρ : Type} [Row ρ] (query : Table.Query ρ) :
    query.fetchEvents.filter Diagnostic.isPageEvent = [] := by
  unfold fetchEvents
  split <;> rfl

theorem Page.filter_events {ρ : Type} (page : Page ρ) (field : String) (limit fetched : Nat) :
    (page.events field limit fetched).filter Diagnostic.isPageEvent = page.events field limit fetched := by
  rw [events, List.filter_append, List.filter_replicate]
  rfl

namespace Keyset

variable {σ ρ ε : Type} [Source σ ρ ε]

theorem says_seek (source : σ) (request : Request) : (seek source request).Says request.tokenEvents := by
  unfold seek Request.tokenEvents
  cases request.cursor with
  | none => exact Logged.says_pure _
  | some token =>
    dsimp only [Cursor.decode]
    cases Cursor.ofToken? token with
    | none => rfl
    | some cursor =>
      by_cases hfield : cursor.field = request.sort.field
      · simp [Logged.Says, Logged.report, hfield]
      · simp [Logged.Says, Logged.report, hfield]

variable [Row ρ]

/-- A token is reported to be missing where there is a row for it and a neighbour. -/
theorem says_neighbourToken (field : String) (hasNeighbour : Bool) (row : Option ρ) :
    (neighbourToken field hasNeighbour row).Says
      (List.replicate (hasNeighbour && (neighbourToken field hasNeighbour row).value.isNone && row.isSome).toNat
        (.boundaryMissing field)) := by
  cases hasNeighbour with
  | false => exact Logged.says_pure _
  | true =>
    cases row with
    | none => exact Logged.says_pure _
    | some row =>
      simp only [neighbourToken, boundaryToken, if_true]
      cases Row.value? row field with
      | none => rfl
      | some value => rfl

theorem says_assemble (request : Request) (limit : Nat) (hasPrevious : Bool) (total : Option Nat)
    (fetched : List ρ) :
    let page := (assemble request limit hasPrevious total fetched).value
    (assemble request limit hasPrevious total fetched).Says (page.events request.sort.field limit fetched.length) := by
  intro page
  have hnext := says_neighbourToken request.sort.field page.hasNext page.items.getLast?
  have hprevious := says_neighbourToken request.sort.field page.hasPrevious page.items.head?
  have hreport := (Logged.says_report (.keysetPage limit fetched.length page.items.length page.hasNext
    page.hasPrevious page.totalCount)).bind_pure (f := fun _ => page)
  have habsent : page.absentCursors =
      (page.hasNext && (neighbourToken request.sort.field page.hasNext page.items.getLast?).value.isNone &&
        page.items.getLast?.isSome).toNat +
      (page.hasPrevious && (neighbourToken request.sort.field page.hasPrevious page.items.head?).value.isNone &&
        page.items.head?.isSome).toNat := by
    have hlast : page.items.getLast?.isSome = !page.isEmpty := by
      rw [Bool.eq_iff_iff, List.getLast?_isSome, Page.isEmpty, Bool.not_eq_true', List.isEmpty_eq_false_iff]
    have hfirst : page.items.head?.isSome = !page.isEmpty := by
      rw [Bool.eq_iff_iff, List.isSome_head?, Page.isEmpty, Bool.not_eq_true', List.isEmpty_eq_false_iff]
    rw [hlast, hfirst]
    rfl
  rw [Page.events, habsent, ← List.replicate_append_replicate, List.append_assoc]
  exact hnext.bind (hprevious.bind hreport)

/-- What is told of a page, if its source reports to whoever calls it. -/
theorem says_page {source : σ} {request : Request} {limit : Nat} {counts : Bool} {counted fetched : List Diagnostic}
    (hcount : (Source.countTolerantly (seek source request).value.1 counts).Says counted)
    (hfetch : (Source.fetch (asked source request limit counts)).Says fetched) :
    let told := request.tokenEvents ++ (counted ++ fetched)
    match (Source.fetch (asked source request limit counts)).value.1 with
    | .ok rows => ∃ shown, (page source request limit counts).value.1 = .ok shown ∧ shown.items = rows.take limit ∧
        (page source request limit counts).Says (told ++ shown.events request.sort.field limit rows.length)
    | .error error =>
      (page source request limit counts).value.1 = .error error ∧ (page source request limit counts).Says told := by
  intro told
  have hseek := says_seek source request
  have hvalue : (page source request limit counts).value.1 =
      (Source.fetch (asked source request limit counts)).value.1.map fun rows =>
        (assemble request limit (seek source request).value.2
          (Source.countTolerantly (seek source request).value.1 counts).value.1 rows).value := by
    rw [value_page]
    rfl
  rw [hvalue]
  unfold page
  rcases hfetched : (Source.fetch (asked source request limit counts)).value with ⟨error | rows, left⟩
  · refine ⟨rfl, ?_⟩
    rw [← List.append_nil told, List.append_assoc, List.append_assoc]
    refine hseek.bind (hcount.bind (hfetch.bind ?_))
    rw [hfetched]
    exact Logged.says_pure _
  · have hassemble := says_assemble request limit (seek source request).value.2
      (Source.countTolerantly (seek source request).value.1 counts).value.1 rows
    refine ⟨_, rfl, congrArg Page.items (value_assemble ..), ?_⟩
    rw [List.append_assoc, List.append_assoc]
    refine hseek.bind (hcount.bind (hfetch.bind ?_))
    rw [hfetched]
    exact hassemble.bind_pure

end Keyset

namespace Table.Query

variable {ρ : Type} [Row ρ]

theorem says_countTolerantly (query : Query ρ) (wanted : Bool) :
    (Source.countTolerantly query wanted).Says (if wanted then query.countEvents else []) := by
  cases wanted with
  | false => exact Logged.says_pure _
  | true =>
    have hcount : (Source.count query).Says [] := Logged.says_pure _
    simp only [Source.countTolerantly, if_true, countEvents]
    refine hcount.bind ?_
    rw [value_source_count]
    cases query.count with
    | error error => exact (Logged.says_report _).bind_pure
    | ok total => exact Logged.says_pure _

theorem countEvents_eq (query : Query ρ) :
    query.countEvents =
      if query.countable = true ∧ query.failure = some .count then [.countFailed (QueryError.injected .count).message]
      else [] := by
  unfold countEvents
  by_cases hfails : query.countable = true ∧ query.failure = some .count
  · rw [count_eq_error_iff.mpr ⟨hfails.1, hfails.2, rfl⟩, if_pos hfails]
  · rw [if_neg hfails]
    split
    · rename_i hcount
      obtain ⟨hcountable, hfailure, _⟩ := count_eq_error_iff.mp hcount
      exact absurd ⟨hcountable, hfailure⟩ hfails
    · rfl

/-- What a query is asked for besides has no part in what is told of its count. -/
theorem countEvents_sought (query : Query ρ) (request : Request) :
    (query.sought request).countEvents = query.countEvents := by
  rw [countEvents_eq, countEvents_eq]
  unfold sought
  cases request.boundary? <;> rfl

theorem says_fetch (query : Query ρ) : (Source.fetch query).Says query.fetchEvents := by
  have hfetch : query.fetch.Says query.fetchEvents := by
    unfold fetchEvents fetch
    cases query.fault? .execute with
    | some error => exact Logged.says_pure _
    | none => exact (Logged.says_report _).bind_pure
  exact hfetch.bind_pure

end Table.Query

namespace Paginator

/-- The events of a page are among what is told of it, which starts with the span of the run. -/
theorem pageEvents_eq_filter {σ ρ ε : Type} [Source σ ρ ε] [Row ρ] {paginator : Paginator} {source : σ}
    {request : Request} {listener : Listener} {diagnostics : List Diagnostic} (hmode : request.offsetMode = false)
    (hlistener : paginator.logging.listener? = some listener)
    (hpage : (Keyset.page (ordered source request) request (request.pageSizeUnder paginator.policy)
      (request.countsUnder paginator.policy)).Says diagnostics) :
    (paginator.paginate source request).pageEvents listener = diagnostics.filter Diagnostic.isPageEvent := by
  have hrun : (run paginator.policy source request).Says
      ([.run request.sort request.tieBreaker request.hasCursor] ++ diagnostics) := by
    refine (Logged.says_report _).bind ?_
    rw [hmode]
    exact hpage
  rw [Logged.pageEvents, paginate, Logging.heardBy_deliver hlistener hrun]
  rfl

variable {ρ : Type} [Row ρ]

/-- What is told before a page is made, but for what the table tells. -/
theorem filter_told (request : Request) (counts : Bool) (query asked : Table.Query ρ) :
    (request.tokenEvents ++ ((if counts then query.countEvents else []) ++ asked.fetchEvents)).filter
      Diagnostic.isPageEvent = request.tokenEvents ++ if counts then query.countEvents else [] := by
  rw [List.filter_append, List.filter_append, request.filter_tokenEvents, asked.filter_fetchEvents, List.append_nil]
  cases counts with
  | false => rfl
  | true => exact congrArg (request.tokenEvents ++ ·) query.filter_countEvents

/--
The events of a page of a query in keyset mode. First comes what is told of the token: that it is none that was
issued and is ignored, or the boundary that it sets, with a word on its field before that where it is not the one
of the order. Then comes the failure of a count that was wanted. Of a page that is returned, the cursors are told
that it lacks, and last the page itself; where fetching its rows fails, nothing further is.
-/
theorem pageEvents_paginate (paginator : Paginator) (query : Table.Query ρ) (request : Request) {listener : Listener}
    (hmode : request.offsetMode = false) (hlistener : paginator.logging.listener? = some listener) :
    let limit := request.pageSizeUnder paginator.policy
    let told := request.tokenEvents ++ if request.countsUnder paginator.policy then query.countEvents else []
    let events := (paginator.paginate query request).pageEvents listener
    match (paginator.paginate query request).value.1 with
    | .ok page => ∃ rows, (Source.fetch (paginator.asked query request)).value.1 = .ok rows ∧
        page.items = rows.take limit ∧ events = told ++ page.events request.sort.field limit rows.length
    | .error error => (Source.fetch (paginator.asked query request)).value.1 = .error error ∧ events = told := by
  intro limit told events
  let source := ordered query request
  let counts := request.countsUnder paginator.policy
  have hasked : paginator.asked query request = Keyset.asked source request limit counts := by
    rw [asked, hmode]
    rfl
  have hvalue : (paginator.paginate query request).value = (Keyset.page source request limit counts).value := by
    rw [value_paginate, hmode]
    rfl
  have hsought : (Keyset.seek source request).value.1 = query.sought request :=
    congrArg Prod.fst (value_seek query request)
  have hcount : (Source.countTolerantly (Keyset.seek source request).value.1 counts).Says
      (if counts then query.countEvents else []) := by
    rw [hsought, ← query.countEvents_sought request]
    exact (query.sought request).says_countTolerantly counts
  have hpage := Keyset.says_page hcount (Keyset.asked source request limit counts).says_fetch
  rw [hvalue, hasked]
  cases hrows : (Source.fetch (Keyset.asked source request limit counts)).value.1 with
  | error error =>
    rw [hrows] at hpage
    obtain ⟨hfails, hsaid⟩ := hpage
    rw [hfails]
    exact ⟨rfl, (pageEvents_eq_filter hmode hlistener hsaid).trans (filter_told request counts query _)⟩
  | ok rows =>
    rw [hrows] at hpage
    obtain ⟨page, hreturned, hitems, hsaid⟩ := hpage
    rw [hreturned]
    refine ⟨rows, rfl, hitems, ?_⟩
    have hevents : events = _ := pageEvents_eq_filter hmode hlistener hsaid
    rw [hevents, List.filter_append, filter_told, page.filter_events]

/-- A query of rows without a rank, which fails to count. -/
def rankless : Table.Query TypedRow := { rows := [⟨0, []⟩, ⟨1, []⟩], failure := some .count }

/-- All that can go wrong with a page that is returned. -/
theorem pageEvents_rankless :
    let request := rankRequest.withCursor "?"
    request.offsetMode = false ∧ (default : Paginator).logging.listener? = some .ambient ∧
      ((default : Paginator).paginate rankless request).pageEvents .ambient =
        [.tokenRejected 1, .cursorIgnored, .countFailed "Injected count failure", .boundaryMissing "rank",
          .keysetPage 1 2 1 true false none] := by
  intro request
  have hmode : request.offsetMode = false := rfl
  have hlistener : (default : Paginator).logging.listener? = some .ambient := rfl
  have hunbounded : rankless.Unbounded := ⟨rfl, rfl, rfl⟩
  have hsorted : SortKey.sort request.keys rankless.rows = rankless.rows := by
    apply SortKey.sort_of_pairwise
    decide +kernel
  have hboundary : request.boundary? = none := by decide +kernel
  have hadmits (value : Option Scalar) : request.admits value = true := by
    rw [Request.admits, hboundary]
  have hfound : Keyset.found request rankless.matching = rankless.rows := by
    rw [Keyset.found, List.filter_eq_self.mpr fun row _ => hadmits _]
    exact hsorted
  have hasked : (default : Paginator).asked rankless request = { rankless with keys := request.keys }.withLimit 2 := by
    have hsought : rankless.sought request = { rankless with keys := request.keys } := by
      rw [Table.Query.sought, hboundary]
    rw [asked, hmode]
    simp only [Bool.false_eq_true, if_false]
    rw [Keyset.asked, value_seek, Table.Query.value_countTolerantly, hsought]
    rfl
  have hpage := paginate_keyset default hunbounded (by decide) hmode
  have hevents := pageEvents_paginate default rankless request hmode hlistener
  rw [hpage] at hevents
  obtain ⟨rows, hrows, _, hevents⟩ := hevents
  rw [hasked, Table.Query.value_fetch (by decide), Table.Query.page_withLimit ⟨rfl, rfl, rfl⟩] at hrows
  have hlength : rows.length = 2 := by
    rw [← Except.ok.inj hrows, List.length_take, SortKey.length_sort]
    rfl
  refine ⟨hmode, hlistener, ?_⟩
  rw [hevents, hboundary, hfound, hlength]
  decide +kernel

end Paginator

end Paging
