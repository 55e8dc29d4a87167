import Paging.Paginator.Basic
import Paging.Table.Query

/-!
Requests and drafts that are filled in by the same settings. A setting does to a draft what it does to a request,
but for the mode: to skip rows puts a request in offset mode at once, while a draft has a setting of its own for
that and is finished in keyset mode without it.
-/

namespace Paging.Request

/-- What a request and a draft can both be told. -/
inductive Setting
  | limit (limit : UInt64)
  | cursor (token : String)
  | offset (offset : UInt64)
  | tieBreaker (key : SortKey)
  | count (includeCount : Bool)

def set (request : Request) : Setting → Request
  | .limit limit => request.withLimit limit
  | .cursor token => request.withCursor token
  | .offset offset => request.withOffset offset
  | .tieBreaker key => request.withTieBreaker key
  | .count includeCount => request.withCount includeCount

theorem offsetMode_set (request : Request) (setting : Setting) :
    (request.set setting).offsetMode = true ↔ request.offsetMode = true ∨ ∃ offset, setting = .offset offset := by
  cases setting <;> simp [set, withLimit, withCursor, withOffset, withTieBreaker, withCount]

/-- A request is in offset mode from the first setting on that skips rows. -/
theorem offsetMode_foldl_set (request : Request) (settings : List Setting) :
    (settings.foldl set request).offsetMode = true ↔
      request.offsetMode = true ∨ ∃ offset, Setting.offset offset ∈ settings := by
  induction settings generalizing request with
  | nil => simp
  | cons setting settings ih =>
    simp only [List.foldl_cons, ih, offsetMode_set, List.mem_cons, or_assoc, exists_or, @eq_comm _ setting]

namespace Draft

def set (draft : Draft) : Setting → Draft
  | .limit limit => draft.withLimit limit
  | .cursor token => draft.withCursor token
  | .offset offset => draft.withOffset offset
  | .tieBreaker key => draft.withTieBreaker key
  | .count includeCount => draft.withCount includeCount

variable {draft : Draft} {request : Request} {mode : Bool}

theorem build_withOffsetMode (h : draft.build = .ok request) (mode : Bool) :
    (draft.withOffsetMode mode).build = .ok { request with offsetMode := mode } := by
  obtain ⟨sort, limit, cursor, offset, offsetMode, tieBreaker, includeCount⟩ := draft
  cases sort with
  | none => cases h
  | some sort =>
    obtain rfl := Except.ok.inj h
    rfl

/-- A setting does to a draft what it does to the request that the draft makes, but for the mode. -/
theorem build_set (h : draft.build = .ok { request with offsetMode := mode }) (setting : Setting) :
    (draft.set setting).build = .ok { request.set setting with offsetMode := mode } := by
  obtain ⟨sort, limit, cursor, offset, offsetMode, tieBreaker, includeCount⟩ := draft
  cases sort with
  | none => cases h
  | some sort =>
    cases request
    simp only [build, Except.ok.injEq, Request.mk.injEq] at h
    obtain ⟨rfl, rfl, rfl, rfl, rfl, rfl, rfl⟩ := h
    cases setting <;> rfl

theorem build_foldl_set (h : draft.build = .ok { request with offsetMode := mode }) (settings : List Setting) :
    (settings.foldl set draft).build = .ok { settings.foldl Request.set request with offsetMode := mode } := by
  induction settings generalizing draft request with
  | nil => exact h
  | cons setting settings ih => exact ih (build_set h setting)

/--
By the same settings a request and a draft come to requests that differ in nothing but the mode. That of the draft
is in keyset mode, and the other one is in offset mode exactly if one of the settings skips rows. So the two are
the same exactly if none does, and then have the same pages. A draft that is told the mode as well makes the same
request whatever the settings are.
-/
theorem build_settings {σ ρ ε : Type} [Source σ ρ ε] [Row ρ] (sort : SortKey) (settings : List Setting) :
    let request := settings.foldl Request.set { sort := sort }
    let draft := settings.foldl Draft.set (Draft.withSort {} sort)
    ∃ built, draft.build = .ok built ∧ built = { request with offsetMode := false } ∧
      (request.offsetMode = true ↔ ∃ offset, Setting.offset offset ∈ settings) ∧
      (built = request ↔ ∀ offset, Setting.offset offset ∉ settings) ∧
      ((∀ offset, Setting.offset offset ∉ settings) → ∀ (paginator : Paginator) (source : σ),
        paginator.paginate source built = paginator.paginate source request) ∧
      (draft.withOffsetMode request.offsetMode).build = .ok request := by
  intro request draft
  have hbuild : draft.build = .ok { request with offsetMode := false } := build_foldl_set rfl settings
  have hmode : request.offsetMode = true ↔ ∃ offset, Setting.offset offset ∈ settings := by
    rw [offsetMode_foldl_set]
    simp
  have hsame : { request with offsetMode := false } = request ↔ ∀ offset, Setting.offset offset ∉ settings := by
    rw [← not_exists, ← hmode, Bool.not_eq_true]
    constructor
    · intro h
      exact (congrArg Request.offsetMode h).symm
    · intro h
      rw [← h]
  refine ⟨_, hbuild, rfl, hmode, hsame, fun hnone paginator source => ?_, build_withOffsetMode hbuild _⟩
  rw [hsame.mpr hnone]

/-- The last limit counts. -/
theorem build_settings_without_offset :
    let settings : List Setting := [.limit 7, .cursor "next", .count false, .limit 1]
    let query : Table.Query TypedRow := { rows := [⟨0, []⟩] }
    ∃ built, (settings.foldl Draft.set (Draft.withSort {} (.asc "rank"))).build = .ok built ∧
      built = { sort := .asc "rank", limit := some 1, cursor := some "next", includeCount := some false } ∧
      (default : Paginator).paginate query built =
        (default : Paginator).paginate query (settings.foldl Request.set { sort := .asc "rank" }) := by
  intro settings query
  obtain ⟨built, hbuild, hbuilt, _, _, hpages, _⟩ :=
    build_settings (σ := Table.Query TypedRow) (.asc "rank") settings
  have hnone (offset : UInt64) : Setting.offset offset ∉ settings := by simp [settings]
  exact ⟨built, hbuild, hbuilt, hpages hnone default query⟩

/-- A draft that is told how many rows to skip, but not the mode, is finished in keyset mode. -/
theorem not_build_eq_ok :
    ¬ ∀ (sort : SortKey) (settings : List Setting),
      (settings.foldl Draft.set (Draft.withSort {} sort)).build =
        .ok (settings.foldl Request.set { sort := sort }) := by
  intro h
  have hbuild := h (.asc "id") [.offset 5]
  have hmode : false = true := congrArg Request.offsetMode (Except.ok.inj hbuild)
  cases hmode

end Draft

end Paging.Request
