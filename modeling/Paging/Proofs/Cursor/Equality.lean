import Paging.Proofs.Cursor.RoundTrip
import Paging.Proofs.Scalar.Equality

/-!
Equal cursors and their tokens. Cursors are equal if they name the same field and their values are equal
in order, and a token keeps apart what that order does not: an integer and a float of its value, and the
two zeros. All other equal cursors have equal tokens.
-/

namespace Paging

namespace Scalar

/-- Of two ways to write a number one is finite, so that its token can be read. -/
theorem Respells.isFinite {a b : Scalar} (h : a.Respells b) : a.isFinite = true ∨ b.isFinite = true := by
  cases h with
  | wholeReal => exact Or.inl rfl
  | realWhole => exact Or.inr rfl
  | @zeros first _ hfirst =>
    left
    change decide (first.magnitude < Binary64.infiniteMagnitude) = true
    rw [hfirst]
    rfl

end Scalar

namespace Cursor

theorem same_iff (a b : Cursor) : a.Same b = true ↔ a.field = b.field ∧ compare a.value b.value = .eq := by
  simp [Same, Scalar.Same]

/-- A token that can be read is that of one cursor only. -/
theorem eq_of_token_eq {a b : Cursor} (hfinite : a.value.isFinite = true) (h : a.token = b.token) : a = b := by
  have hread := ofToken?_token_eq b
  rw [← h, ofToken?_token_eq, if_pos hfinite] at hread
  exact (Option.some.inj (Option.ite_none_right_eq_some.mp hread.symm).2).symm

theorem token_ne_of_respells {a b : Cursor} (h : a.value.Respells b.value) : a.token ≠ b.token := by
  intro htoken
  have hsame : a = b := by
    rcases h.isFinite with hfinite | hfinite
    · exact eq_of_token_eq hfinite htoken
    · exact (eq_of_token_eq hfinite htoken.symm).symm
  exact h.ne (congrArg value hsame)

/--
Equal cursors have equal tokens exactly if their values are not two ways to write one number, an integer
and a float or two zeros of different sign.
-/
theorem token_eq_iff_of_same {a b : Cursor} (hsame : a.Same b = true) :
    a.token = b.token ↔ ¬a.value.Respells b.value := by
  obtain ⟨hfield, hcompare⟩ := (same_iff a b).mp hsame
  constructor
  · intro htoken hrespells
    exact token_ne_of_respells hrespells htoken
  · intro hrespells
    have hvalue := ((Scalar.compare_eq_iff _ _).mp hcompare).resolve_right hrespells
    cases a
    cases b
    cases hfield
    cases hvalue
    rfl

/-- `2 ^ 53` as an integer and as a float. -/
theorem token_ne_around_rounding :
    let whole : Cursor := ⟨"rank", .int 9007199254740992⟩
    let real : Cursor := ⟨"rank", .float (.ofBits 0x4340000000000000)⟩
    whole.Same real = true ∧ whole.token ≠ real.token := by
  intro whole real
  have hsame : whole.Same real = true := by decide +kernel
  refine ⟨hsame, fun htoken => ?_⟩
  apply (token_eq_iff_of_same hsame).mp htoken
  exact .wholeReal (by decide +kernel)

/-- Equal cursors need not have equal tokens: the two zeros have tokens of their own. -/
theorem not_token_eq_of_same : ¬∀ a b : Cursor, a.Same b = true → a.token = b.token := by
  intro hall
  have htoken := hall ⟨"rank", .float (.ofBits 0)⟩ ⟨"rank", .float (.ofBits 0x8000000000000000)⟩
    (by decide +kernel)
  exact token_ne_of_respells (.zeros rfl rfl (by decide)) htoken

end Cursor

end Paging
