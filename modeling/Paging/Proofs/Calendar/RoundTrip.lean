import Paging.Calendar.Printer
import Paging.Proofs.Calendar.Numbering
import Paging.Proofs.Calendar.Reading

/-!
The canonical texts of dates, times and instants name what they were written for: each part is spelled in
extended form, with all its digits.
-/

namespace Paging.Calendar

theorem length_padded {width n : Nat} (hwidth : 0 < width) (h : n < 10 ^ width) :
    (padded width n).length = width := by
  have hlength := (Nat.length_toDigits_le_iff (b := 10) (by decide) hwidth).mpr h
  rw [padded, List.length_append, List.length_replicate]
  omega

theorem isDigit_of_mem_padded {width n : Nat} : ∀ c ∈ padded width n, c.isDigit = true := by
  intro c hc
  rw [padded, List.mem_append] at hc
  rcases hc with hzero | hdigit
  · rw [List.eq_of_mem_replicate hzero]
    rfl
  · exact Nat.isDigit_of_mem_toDigits (by decide) (by decide) hdigit

theorem ofDigitChars_padded (width n : Nat) : Nat.ofDigitChars 10 (padded width n) 0 = n := by
  rw [padded, Nat.ofDigitChars_append, Nat.ofDigitChars_replicate_zero, Nat.mul_zero,
    Nat.ofDigitChars_ten_toDigits]

namespace Grammar

theorem digits_padded {count n : Nat} (hcount : 0 < count) (h : n < 10 ^ count) :
    Digits count (padded count n) n :=
  ⟨length_padded hcount h, isDigit_of_mem_padded, ofDigitChars_padded count n⟩

theorem yearText_chars {year : Int} (h : -9999 ≤ year ∧ year ≤ 9999) : YearText (yearChars year) year := by
  cases year with
  | ofNat n =>
    rw [Int.ofNat_eq_natCast] at h
    exact .plain (digits_padded (by decide) (by omega))
  | negSucc n => exact .behind (digits_padded (by decide) (by omega)) (Nat.succ_ne_zero n)

theorem daysInMonth_le (year : Int) (month : Nat) : daysInMonth year month ≤ 31 := by
  unfold daysInMonth leapDays
  split <;> (try split) <;> omega

theorem digits_monthAndDay (date : Date) :
    Digits 2 (padded 2 date.month) date.month ∧ Digits 2 (padded 2 date.day) date.day := by
  obtain ⟨hmonth, hmonth'⟩ := date.month_range
  obtain ⟨hday, hday'⟩ := date.day_range
  have hbound := daysInMonth_le date.year date.month
  exact ⟨digits_padded (by decide) (by omega), digits_padded (by decide) (by omega)⟩

theorem dateText_chars (date : Date) : DateText date.chars date := by
  obtain ⟨hmonth, hday⟩ := digits_monthAndDay date
  exact .mk true (yearText_chars date.year_range) hmonth hday

theorem fractionText_chars {nanosecond : Nat} (h : nanosecond < 1000000000) :
    FractionText (fractionChars nanosecond) nanosecond := by
  by_cases hzero : nanosecond = 0
  · rw [fractionChars, if_pos hzero, hzero]
    exact .whole
  have hchars : fractionChars nanosecond = '.' :: Json.Number.trimmed (padded 9 nanosecond) := by
    rw [fractionChars, if_neg hzero]
    rfl
  have hlength := length_padded (by decide : 0 < 9) (by omega : nanosecond < 10 ^ 9)
  have hvalue := ofDigitChars_padded 9 nanosecond
  have hpadded : ∀ c ∈ padded 9 nanosecond, c.isDigit = true := isDigit_of_mem_padded
  have hdigits := isDigit_of_mem_trimmed hpadded
  obtain ⟨zeros, hzeros⟩ := trimmed_append_zeros (padded 9 nanosecond)
  rw [hchars]
  generalize Json.Number.trimmed (padded 9 nanosecond) = digits at hdigits hzeros
  rw [← hzeros, List.length_append, List.length_replicate] at hlength
  rw [← hzeros, ofDigitChars_append_zeros] at hvalue
  have hpos : digits ≠ [] := by
    rintro rfl
    rw [Nat.ofDigitChars_nil, Nat.zero_mul] at hvalue
    exact hzero hvalue.symm
  have hpad : zeros = 9 - digits.length := by omega
  rw [← hvalue, hpad]
  exact .digits (Or.inl rfl) ⟨List.length_pos_iff.mpr hpos, by omega⟩ hdigits

theorem timeText_chars (time : Time) : TimeText time.chars time := by
  have hhour := time.hour_lt
  have hminute := time.minute_lt
  have hsecond := time.second_lt
  have hclock : ClockText true time.chars ⟨time.hour, time.minute, time.second, time.nanosecond⟩ :=
    .seconds (digits_padded (by decide) (by omega)) (digits_padded (by decide) (by omega))
      (digits_padded (by decide) (by omega)) (fractionText_chars time.nanosecond_lt)
  exact .mk hclock ⟨rfl, rfl, Or.inl rfl, rfl⟩

theorem spells_dateChars (date : Date) : Spells date.chars ⟨date, none, none⟩ := by
  have hspells := Spells.date (dateText_chars date) (.pairs .nil)
  rwa [List.append_nil] at hspells

theorem spells_dateTimeChars (wall : DateTime) : Spells wall.chars ⟨wall.date, some wall.time, none⟩ := by
  have hspells := Spells.time (dateText_chars wall.date) (by decide : isTimeMark 'T' = true)
    (timeText_chars wall.time) (.pairs .nil)
  rwa [List.append_nil] at hspells

theorem spells_instantChars (instant : Instant) :
    Spells instant.chars ⟨instant.toDateTime.date, some instant.toDateTime.time, some .universal⟩ := by
  have hspells := Spells.offset (dateText_chars instant.toDateTime.date) (by decide : isTimeMark 'T' = true)
    (timeText_chars instant.toDateTime.time) .upper (.pairs .nil)
  rw [Instant.chars, DateTime.chars, List.append_assoc, List.cons_append]
  exact hspells

end Grammar

open Grammar

/-- The text of a date names it. -/
theorem Date.ofText?_chars (date : Date) : ofText? (String.ofList date.chars) = some date := by
  have hspells := spells_dateChars date
  rw [← String.toList_ofList (l := date.chars)] at hspells
  rw [ofText?, DateTime.ofText?_of_spells hspells]
  rfl

/-- The text of a date with a time names both. -/
theorem DateTime.ofText?_chars (wall : DateTime) : ofText? (String.ofList wall.chars) = some wall := by
  have hspells := spells_dateTimeChars wall
  rw [← String.toList_ofList (l := wall.chars)] at hspells
  rw [ofText?_of_spells hspells]
  rfl

/-- The text of an instant names it, whatever part of the calendar it lies in. -/
theorem Instant.ofText?_chars (instant : Instant) :
    ofText? (String.ofList instant.chars) = some instant := by
  have hspells := spells_instantChars instant
  rw [← String.toList_ofList (l := instant.chars)] at hspells
  rw [ofText?_of_spells hspells]
  exact ofDateTime?_toDateTime instant

end Paging.Calendar
