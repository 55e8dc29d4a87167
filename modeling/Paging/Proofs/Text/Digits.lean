import Mathlib.Algebra.Order.Ring.Nat
import Paging.Json.Token

/-!
Runs of decimal digits inside a text: where a run ends, what it stands for, and the zeros at its end, which
count nothing after a point.
-/

namespace Paging

/-- A scan over a run stops at the character after it. -/
theorem takeWhile_append_stop {α : Type} {p : α → Bool} {run rest : List α}
    (hrun : ∀ c ∈ run, p c = true) (hrest : ∀ c ∈ rest.head?, p c = false) :
    (run ++ rest).takeWhile p = run := by
  induction run with
  | nil =>
    cases rest with
    | nil => rfl
    | cons c rest => rw [List.nil_append, List.takeWhile_cons, hrest c rfl]; rfl
  | cons c run ih =>
    rw [List.cons_append, List.takeWhile_cons, hrun c List.mem_cons_self,
      ih fun c hc => hrun c (List.mem_cons_of_mem _ hc)]
    rfl

theorem dropWhile_append_stop {α : Type} {p : α → Bool} {run rest : List α}
    (hrun : ∀ c ∈ run, p c = true) (hrest : ∀ c ∈ rest.head?, p c = false) :
    (run ++ rest).dropWhile p = rest := by
  have hsplit := List.takeWhile_append_dropWhile (p := p) (l := run ++ rest)
  rw [takeWhile_append_stop hrun hrest] at hsplit
  exact List.append_cancel_left hsplit

/-- What starts with a character of a class does not start with one outside it. -/
theorem head?_ne_of_exists {p : Char → Bool} {text : List Char} (h : ∃ c ∈ text.head?, p c = true) {mark : Char}
    (hmark : p mark = false) : ∀ c ∈ text.head?, c ≠ mark := by
  obtain ⟨first, hfirst, hclass⟩ := h
  rintro c hc rfl
  cases hfirst.symm.trans hc
  rw [hmark] at hclass
  cases hclass

/-- What is dropped from the end of a list of digits is a number of zeros. -/
theorem trimmed_append_zeros (digits : List Char) :
    ∃ zeros, Json.Number.trimmed digits ++ List.replicate zeros '0' = digits := by
  have hzeros : digits.reverse.takeWhile (· == '0') =
      List.replicate (digits.reverse.takeWhile (· == '0')).length '0' := by
    apply List.eq_replicate_of_mem
    intro c hc
    simpa only [beq_iff_eq] using List.all_eq_true.mp List.all_takeWhile c hc
  refine ⟨(digits.reverse.takeWhile (· == '0')).length, ?_⟩
  have hsplit := List.takeWhile_append_dropWhile (p := (· == '0')) (l := digits.reverse)
  rw [← List.reverse_inj, List.reverse_append, List.reverse_replicate, ← hzeros,
    Json.Number.trimmed, List.reverse_reverse]
  exact hsplit

theorem isDigit_of_mem_trimmed {digits : List Char} (h : ∀ c ∈ digits, c.isDigit = true) :
    ∀ c ∈ Json.Number.trimmed digits, c.isDigit = true := by
  intro c hc
  obtain ⟨zeros, hzeros⟩ := trimmed_append_zeros digits
  apply h
  rw [← hzeros]
  exact List.mem_append_left _ hc

/-- As many digits stay below that power of ten. -/
theorem ofDigitChars_lt {digits : List Char} (h : ∀ c ∈ digits, c.isDigit = true) :
    Nat.ofDigitChars 10 digits 0 < 10 ^ digits.length := by
  suffices ∀ init, Nat.ofDigitChars 10 digits init < (init + 1) * 10 ^ digits.length by
    simpa using this 0
  induction digits with
  | nil => simp
  | cons c digits ih =>
    intro init
    have hc : c.toNat - '0'.toNat < 10 := by
      have hdigit := h c List.mem_cons_self
      simp only [Char.isDigit, Bool.and_eq_true, decide_eq_true_eq] at hdigit
      have hle : c.toNat ≤ 57 := hdigit.2
      have hzero : '0'.toNat = 48 := rfl
      omega
    rw [Nat.ofDigitChars_cons, List.length_cons]
    calc Nat.ofDigitChars 10 digits (10 * init + (c.toNat - '0'.toNat))
        < (10 * init + (c.toNat - '0'.toNat) + 1) * 10 ^ digits.length :=
          ih (fun d hd => h d (List.mem_cons_of_mem _ hd)) _
      _ ≤ ((init + 1) * 10) * 10 ^ digits.length := Nat.mul_le_mul_right _ (by omega)
      _ = (init + 1) * 10 ^ (digits.length + 1) := by rw [Nat.mul_assoc, ← Nat.pow_succ']

end Paging
