import Paging.Diagnostics

/-!
Policies: how many rows a page has when a request does not say, how many it may have at most, and whether
rows are counted when a request does not say. A policy is valid when its default fits its maximum and that
is no more than `maxPageSize`.
-/

namespace Paging

/-- No page holds more rows than this, whatever a policy says. -/
def maxPageSize : Nat := 100

/-- The page size where neither the request nor a policy says otherwise. -/
def defaultPageSize : Nat := 20

/-- The bounds of a page size, kept within `1` and `maxPageSize`. -/
def clampPageSize (size bound : Nat) : Nat :=
  min (max size 1) (min (max bound 1) maxPageSize)

structure Policy where
  defaultLimit : UInt64 := 20
  maxLimit : UInt64 := 100
  includeCount : Bool := true
  deriving DecidableEq, Repr

inductive PolicyError
  | maxLimit (got : UInt64)
  | defaultLimit (maxLimit got : UInt64)
  deriving DecidableEq, Repr

def PolicyError.message : PolicyError → String
  | .maxLimit got =>
    "Configuration error: max_limit must be between 1 and " ++ maxPageSize.repr ++ ", got " ++
      got.toNat.repr
  | .defaultLimit bound got =>
    "Configuration error: default_limit must be between 1 and max_limit (" ++ bound.toNat.repr ++
      "), got " ++ got.toNat.repr

namespace Policy

/-- Neither limit is zero, the default is within the maximum and that is within `maxPageSize`. -/
structure Valid (policy : Policy) : Prop where
  default_pos : 0 < policy.defaultLimit.toNat
  default_le : policy.defaultLimit.toNat ≤ policy.maxLimit.toNat
  max_le : policy.maxLimit.toNat ≤ maxPageSize

/-- The first fault of a policy, its maximum being looked at first. -/
def fault? (policy : Policy) : Option PolicyError :=
  if policy.maxLimit.toNat = 0 ∨ maxPageSize < policy.maxLimit.toNat then
    some (.maxLimit policy.maxLimit)
  else if policy.defaultLimit.toNat = 0 ∨ policy.maxLimit.toNat < policy.defaultLimit.toNat then
    some (.defaultLimit policy.maxLimit policy.defaultLimit)
  else none

theorem fault?_eq_none_iff (policy : Policy) : policy.fault? = none ↔ policy.Valid := by
  unfold fault?
  constructor
  · intro h
    split at h
    · simp at h
    split at h
    · simp at h
    · exact ⟨by omega, by omega, by omega⟩
  · intro ⟨hpos, hle, hmax⟩
    rw [if_neg (by omega), if_neg (by omega)]

theorem valid_default : Valid {} := (fault?_eq_none_iff {}).mp (by decide)

/-- Checks a policy, reporting one that is accepted. -/
def validate (policy : Policy) : Logged (Except PolicyError Unit) :=
  match policy.fault? with
  | some error => return .error error
  | none => do
    Logged.report
      (.policyAccepted policy.defaultLimit.toNat policy.maxLimit.toNat policy.includeCount)
    return .ok ()

def withDefaultLimit (policy : Policy) (limit : UInt64) : Policy :=
  { policy with defaultLimit := limit }

def withMaxLimit (policy : Policy) (limit : UInt64) : Policy := { policy with maxLimit := limit }

def withCount (policy : Policy) (includeCount : Bool) : Policy :=
  { policy with includeCount := includeCount }

def toJson (policy : Policy) : Json.Value :=
  .ofMembers [("default_limit", .ofWord policy.defaultLimit),
    ("max_limit", .ofWord policy.maxLimit), ("include_count", .bool policy.includeCount)]

/-- Reads a policy. What is left out is as in the default policy. -/
def ofDocument? (document : Json.Document) : Option Policy := do
  let standard : Policy := {}
  let record ← document.record? ["default_limit", "max_limit", "include_count"]
  let defaultLimit ← record.fieldOr? "default_limit" standard.defaultLimit Json.Document.word?
  let maxLimit ← record.fieldOr? "max_limit" standard.maxLimit Json.Document.word?
  let includeCount ← record.fieldOr? "include_count" standard.includeCount Json.Document.flag?
  return ⟨defaultLimit, maxLimit, includeCount⟩

end Policy

end Paging
