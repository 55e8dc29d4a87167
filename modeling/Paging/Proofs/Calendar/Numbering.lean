import Mathlib.Tactic.IntervalCases
import Paging.Calendar.Time

/-!
Numbers of days and dates, and instants and wall clocks, stand for each other. A later date has a greater
number.
-/

namespace Paging.Calendar

theorem yearStart_mono {first second : Int} (h : first ≤ second) : yearStart first ≤ yearStart second := by
  unfold yearStart
  omega

theorem monthStart_succ {year : Int} {month : Nat} (h : 1 ≤ month ∧ month ≤ 12) :
    monthStart year (month + 1) = monthStart year month + daysInMonth year month := by
  obtain ⟨hlower, hupper⟩ := h
  interval_cases month <;> simp only [monthStart, daysInMonth] <;> omega

/-- A month ends before a later one of its year starts. -/
theorem monthEnd_le {year : Int} {first second : Nat} (hpos : 1 ≤ first) (h : first < second)
    (hle : second ≤ 13) : monthStart year first + daysInMonth year first ≤ monthStart year second := by
  obtain ⟨between, rfl⟩ := Nat.exists_eq_add_of_lt h
  induction between with
  | zero => exact (monthStart_succ ⟨hpos, by omega⟩).ge
  | succ between ih =>
    have hprevious := ih (by omega) (by omega)
    have hnext : monthStart year (first + between + 1 + 1) =
        monthStart year (first + between + 1) + daysInMonth year (first + between + 1) :=
      monthStart_succ ⟨by omega, by omega⟩
    rw [← Nat.add_assoc, hnext]
    omega

theorem Date.inYear_dayNumber (date : Date) : InYear date.year date.dayNumber := by
  obtain ⟨hmonth, hmonth'⟩ := date.month_range
  obtain ⟨hday, hday'⟩ := date.day_range
  have hend : monthStart date.year date.month + daysInMonth date.year date.month ≤ 365 + leapDays date.year :=
    monthEnd_le hmonth (Nat.lt_succ_of_le hmonth') (Nat.le_refl 13)
  unfold InYear dayNumber
  rw [yearStart_succ]
  omega

theorem Date.dayNumber_lt {a b : Date} (h : compare a b = .lt) : a.dayNumber < b.dayNumber := by
  change (compare a.year b.year).then ((compare a.month b.month).then (compare a.day b.day)) = .lt at h
  simp only [Ordering.then_eq_lt, compare_lt_iff_lt, compare_eq_iff_eq] at h
  rcases h with hyear | ⟨hyear, hmonth | ⟨hmonth, hday⟩⟩
  · have ha := a.inYear_dayNumber.2
    have hb := b.inYear_dayNumber.1
    have hnext := yearStart_mono (Int.add_one_le_of_lt hyear)
    omega
  · have hday := a.day_range
    have hmonth' := b.month_range
    have hend : monthStart a.year a.month + daysInMonth a.year a.month ≤ monthStart a.year b.month :=
      monthEnd_le a.month_range.1 hmonth (by omega)
    unfold dayNumber
    rw [← hyear]
    omega
  · have hday' := a.day_range
    unfold dayNumber
    rw [hyear, hmonth]
    omega

theorem Date.dayNumber_ofDayNumber (day : Int) (h : DayInRange day) :
    (ofDayNumber day h).dayNumber = day := by
  have hyear := inYear_yearOf day
  unfold InYear at hyear
  rw [yearStart_succ] at hyear
  have hmonth := inMonth_monthOf (yearOf day) (day - yearStart (yearOf day)).toNat (by omega)
  unfold InMonth at hmonth
  simp only [dayNumber, ofDayNumber]
  omega

/-- The wall clock in universal time names the instant it was read at. -/
theorem Instant.ofDateTime?_toDateTime (instant : Instant) :
    ofDateTime? instant.toDateTime 0 = some instant := by
  have hday : instant.toDateTime.date.dayNumber = instant.day :=
    Date.dayNumber_ofDayNumber instant.day instant.dayInRange_day
  have hseconds : instant.toDateTime.time.seconds =
      (instant.nanoseconds / 1000000000 % 86400).toNat := by
    simp only [toDateTime, Time.seconds, Time.ofSeconds]
    omega
  have hnano : instant.toDateTime.time.nanosecond = (instant.nanoseconds % 1000000000).toNat := rfl
  have htotal : ((instant.toDateTime.date.dayNumber - epochDay) * 86400 +
      instant.toDateTime.time.seconds - 0) * 1000000000 +
      instant.toDateTime.time.nanosecond = instant.nanoseconds := by
    rw [hday, hseconds, hnano, day]
    omega
  rw [ofDateTime?, htotal, of?, dif_pos ⟨instant.lower, instant.upper⟩]

end Paging.Calendar
