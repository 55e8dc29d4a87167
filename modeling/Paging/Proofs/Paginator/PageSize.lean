import Paging.Request

/-!
Page sizes. Whatever size is asked for and whatever bound is set, a page has room for a row, and for no more
of them than the bound and `maxPageSize` allow.
-/

namespace Paging

theorem clampPageSize_pos (size bound : Nat) : 0 < clampPageSize size bound := by
  simp only [clampPageSize, maxPageSize]
  omega

theorem clampPageSize_le (size bound : Nat) : clampPageSize size bound ≤ min (max bound 1) maxPageSize :=
  Nat.min_le_right _ _

/-- The bound of a valid policy is not zero, and so no page exceeds it. -/
theorem Policy.Valid.clampPageSize_le {policy : Policy} (h : policy.Valid) (size : Nat) :
    clampPageSize size policy.maxLimit.toNat ≤ min policy.maxLimit.toNat maxPageSize := by
  have hbound := Paging.clampPageSize_le size policy.maxLimit.toNat
  have hpos := Nat.lt_of_lt_of_le h.default_pos h.default_le
  rwa [Nat.max_eq_left hpos] at hbound

theorem Request.pageSizeUnder_pos (request : Request) (policy : Policy) : 0 < request.pageSizeUnder policy :=
  clampPageSize_pos _ _

end Paging
