/-!
Dates of the proleptic Gregorian calendar from the year -9999 to the year 9999, and their numbering by
days. The main statements say that a year starts where the one before it ends, that every day number
lies in the year `yearOf` finds for it, and that every day of a year lies in the month `monthOf` finds.
-/

namespace Paging.Calendar

/-- A fourth year is a leap year, but of the hundredth years only each fourth. -/
def isLeap (year : Int) : Bool :=
  decide (year % 4 = 0 ∧ (year % 100 ≠ 0 ∨ year % 400 = 0))

/-- The days of a leap year past the twenty-eighth of February that other years lack. -/
def leapDays (year : Int) : Nat := if isLeap year then 1 else 0

def daysInMonth (year : Int) : Nat → Nat
  | 1 => 31
  | 2 => 28 + leapDays year
  | 3 => 31
  | 4 => 30
  | 5 => 31
  | 6 => 30
  | 7 => 31
  | 8 => 31
  | 9 => 30
  | 10 => 31
  | 11 => 30
  | 12 => 31
  | _ => 0

/-- The number of days from the first of January of the year 0 to that of `year`. -/
def yearStart (year : Int) : Int :=
  365 * year + (year + 3) / 4 - (year + 99) / 100 + (year + 399) / 400

theorem yearStart_succ (year : Int) :
    yearStart (year + 1) = yearStart year + 365 + leapDays year := by
  unfold yearStart leapDays isLeap
  split <;> rename_i h <;> simp only [decide_eq_true_eq] at h <;> omega

def monthStart (year : Int) : Nat → Nat
  | 1 => 0
  | 2 => 31
  | 3 => 59 + leapDays year
  | 4 => 90 + leapDays year
  | 5 => 120 + leapDays year
  | 6 => 151 + leapDays year
  | 7 => 181 + leapDays year
  | 8 => 212 + leapDays year
  | 9 => 243 + leapDays year
  | 10 => 273 + leapDays year
  | 11 => 304 + leapDays year
  | 12 => 334 + leapDays year
  | _ => 365 + leapDays year

def InYear (year day : Int) : Prop := yearStart year ≤ day ∧ day < yearStart (year + 1)

/-- The year a day lies in. A cycle of 400 years has 146097 days, which puts the guess off by one at most. -/
def yearOf (day : Int) : Int :=
  let guess := day * 400 / 146097
  if day < yearStart guess then guess - 1
  else if yearStart (guess + 1) ≤ day then guess + 1
  else guess

theorem inYear_yearOf (day : Int) : InYear (yearOf day) day := by
  have hguess : day * 400 / 146097 * 146097 ≤ day * 400 ∧
      day * 400 < (day * 400 / 146097 + 1) * 146097 := by omega
  unfold InYear yearOf
  generalize day * 400 / 146097 = guess at hguess
  simp only
  split
  · rw [Int.sub_add_cancel]
    unfold yearStart at *
    omega
  split
  · unfold yearStart at *
    omega
  · omega

/-- Whether a day of a year, the first of January being day zero, lies in a month. -/
def InMonth (year : Int) (month dayOfYear : Nat) : Prop :=
  monthStart year month ≤ dayOfYear ∧ dayOfYear < monthStart year month + daysInMonth year month

def monthOf (year : Int) (dayOfYear : Nat) : Nat :=
  let leap := leapDays year
  if dayOfYear < 31 then 1
  else if dayOfYear < 59 + leap then 2
  else if dayOfYear < 90 + leap then 3
  else if dayOfYear < 120 + leap then 4
  else if dayOfYear < 151 + leap then 5
  else if dayOfYear < 181 + leap then 6
  else if dayOfYear < 212 + leap then 7
  else if dayOfYear < 243 + leap then 8
  else if dayOfYear < 273 + leap then 9
  else if dayOfYear < 304 + leap then 10
  else if dayOfYear < 334 + leap then 11
  else 12

theorem monthOf_range (year : Int) (dayOfYear : Nat) :
    1 ≤ monthOf year dayOfYear ∧ monthOf year dayOfYear ≤ 12 := by
  fun_cases monthOf year dayOfYear <;> decide

theorem inMonth_monthOf (year : Int) (dayOfYear : Nat) (h : dayOfYear < 365 + leapDays year) :
    InMonth year (monthOf year dayOfYear) dayOfYear := by
  unfold InMonth
  fun_cases monthOf year dayOfYear <;> simp only [monthStart, daysInMonth] <;> omega

structure Date where
  year : Int
  month : Nat
  day : Nat
  year_range : -9999 ≤ year ∧ year ≤ 9999
  month_range : 1 ≤ month ∧ month ≤ 12
  day_range : 1 ≤ day ∧ day ≤ daysInMonth year month
  deriving DecidableEq, Repr

namespace Date

def of? (year : Int) (month day : Nat) : Option Date :=
  if h : (-9999 ≤ year ∧ year ≤ 9999) ∧ (1 ≤ month ∧ month ≤ 12) ∧
      (1 ≤ day ∧ day ≤ daysInMonth year month) then
    some ⟨year, month, day, h.1, h.2.1, h.2.2⟩
  else none

/-- Dates are ordered by year, month and day. -/
instance : Ord Date where
  compare := compareLex (compareOn (·.year)) (compareLex (compareOn (·.month)) (compareOn (·.day)))

/-- The number of days since the first of January of the year 0. -/
def dayNumber (date : Date) : Int :=
  yearStart date.year + monthStart date.year date.month + (date.day - 1 : Nat)

def DayInRange (day : Int) : Prop := yearStart (-9999) ≤ day ∧ day < yearStart 10000

instance (day : Int) : Decidable (DayInRange day) := inferInstanceAs (Decidable (_ ∧ _))

theorem yearOf_range {day : Int} (h : DayInRange day) : -9999 ≤ yearOf day ∧ yearOf day ≤ 9999 := by
  obtain ⟨hlower, hupper⟩ := h
  have hyear := inYear_yearOf day
  unfold InYear yearStart at *
  omega

def ofDayNumber (day : Int) (h : DayInRange day) : Date :=
  let year := yearOf day
  let dayOfYear := (day - yearStart year).toNat
  let month := monthOf year dayOfYear
  have hyear : (day - yearStart (yearOf day)).toNat < 365 + leapDays (yearOf day) := by
    have hmem := inYear_yearOf day
    unfold InYear at hmem
    rw [yearStart_succ] at hmem
    omega
  have hmonth := inMonth_monthOf _ _ hyear
  { year := year
    month := month
    day := dayOfYear - monthStart year month + 1
    year_range := yearOf_range h
    month_range := monthOf_range _ _
    day_range := ⟨Nat.le_add_left _ _, Nat.succ_le_of_lt (Nat.sub_lt_left_of_lt_add hmonth.1 hmonth.2)⟩ }

end Date

end Paging.Calendar
