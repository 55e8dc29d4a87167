import Paging.Proofs.Calendar.RoundTrip

/-!
Stamps, the instants that RFC 3339 can write: a date of a year with four digits, a time of day with or without
a fraction of a second, and an offset from universal time. A stamp is later than the last instant of all, or
its text spells its instant.
-/

namespace Paging.Calendar

open Grammar

/-- Hours and minutes ahead of universal time, or behind it. -/
structure Shift where
  behind : Bool
  hour : Nat
  minute : Nat
  hour_lt : hour < 24 := by decide
  minute_lt : minute < 60 := by decide

namespace Shift

def chars (shift : Shift) : List Char :=
  (if shift.behind then '-' else '+') :: (padded 2 shift.hour ++ ':' :: padded 2 shift.minute)

def seconds (shift : Shift) : Int :=
  let ahead : Int := shift.hour * 3600 + shift.minute * 60
  if shift.behind then -ahead else ahead

/-- No shift comes near the 26 hours that an offset must stay below. -/
theorem natAbs_seconds_lt (shift : Shift) : shift.seconds.natAbs < 26 * 3600 := by
  have hhour := shift.hour_lt
  have hminute := shift.minute_lt
  unfold seconds
  dsimp only
  split <;> omega

theorem offsetText_chars (shift : Shift) : OffsetText shift.chars (.numeric shift.seconds) := by
  have hhour := shift.hour_lt
  have hminute := shift.minute_lt
  let clock : Clock := ⟨shift.hour, shift.minute, 0, 0⟩
  have hclock : ClockText true (padded 2 shift.hour ++ ':' :: padded 2 shift.minute) clock :=
    .minutes (digits_padded (by decide) (by omega)) (digits_padded (by decide) (by omega))
  have hrange : clock.isOffset = true := by
    simp only [Clock.isOffset, clock, decide_eq_true_eq]
    omega
  have hseconds : (clock.offsetSeconds : Int) = shift.hour * 3600 + shift.minute * 60 := by
    simp [Clock.offsetSeconds, clock]
  rw [chars, seconds, ← hseconds]
  cases shift.behind with
  | false => exact .ahead hclock hrange
  | true => exact .behind hclock hrange

end Shift

/-- A date and time in the notation of RFC 3339. Without a shift it is in universal time. -/
structure Stamp where
  date : Date
  hour : Nat
  minute : Nat
  second : Nat
  fraction : List Char
  shift : Option Shift
  year_nonneg : 0 ≤ date.year := by decide
  hour_lt : hour < 24 := by decide
  minute_lt : minute < 60 := by decide
  second_lt : second < 60 := by decide
  all_isDigit_fraction : fraction.all Char.isDigit = true := by decide
  length_fraction : fraction.length ≤ 9 := by decide

namespace Stamp

theorem isDigit_fraction (stamp : Stamp) : ∀ c ∈ stamp.fraction, c.isDigit = true :=
  List.all_eq_true.mp stamp.all_isDigit_fraction

/-- A point stands in front of the digits of a fraction, if there are any. -/
def pointed : List Char → List Char
  | [] => []
  | digits => '.' :: digits

def zoneChars : Option Shift → List Char
  | none => ['Z']
  | some shift => shift.chars

def chars (stamp : Stamp) : List Char :=
  stamp.date.chars ++ 'T' :: (padded 2 stamp.hour ++ ':' :: (padded 2 stamp.minute ++
    ':' :: (padded 2 stamp.second ++ (pointed stamp.fraction ++ zoneChars stamp.shift))))

def text (stamp : Stamp) : String := String.ofList stamp.chars

/-- How far the clock of a stamp is ahead of universal time. -/
def ahead (stamp : Stamp) : Int := (stamp.shift.map Shift.seconds).getD 0

/-- The fraction of a second in nanoseconds. -/
def nanosecond (stamp : Stamp) : Nat :=
  Nat.ofDigitChars 10 stamp.fraction 0 * 10 ^ (9 - stamp.fraction.length)

/-- The instant of a stamp, in nanoseconds since the start of 1970 in universal time. -/
def nanoseconds (stamp : Stamp) : Int :=
  ((stamp.date.dayNumber - Instant.epochDay) * 86400 + stamp.hour * 3600 + stamp.minute * 60 +
    stamp.second - stamp.ahead) * 1000000000 + stamp.nanosecond

theorem nanosecond_lt (stamp : Stamp) : stamp.nanosecond < 1000000000 := by
  have hlength := stamp.length_fraction
  calc stamp.nanosecond
      < 10 ^ stamp.fraction.length * 10 ^ (9 - stamp.fraction.length) :=
        Nat.mul_lt_mul_of_pos_right (ofDigitChars_lt stamp.isDigit_fraction) (Nat.pow_pos (by decide))
    _ = 10 ^ 9 := by rw [← Nat.pow_add, Nat.add_sub_of_le hlength]

def time (stamp : Stamp) : Time :=
  ⟨stamp.hour, stamp.minute, stamp.second, stamp.nanosecond, stamp.hour_lt, stamp.minute_lt, stamp.second_lt,
    stamp.nanosecond_lt⟩

def offset (stamp : Stamp) : Offset :=
  match stamp.shift with
  | none => .universal
  | some shift => .numeric shift.seconds

theorem fractionText_pointed {digits : List Char} (hdigits : ∀ c ∈ digits, c.isDigit = true)
    (hlength : digits.length ≤ 9) :
    FractionText (pointed digits) (Nat.ofDigitChars 10 digits 0 * 10 ^ (9 - digits.length)) := by
  cases digits with
  | nil => exact .whole
  | cons c digits => exact .digits (Or.inl rfl) ⟨Nat.le_add_left _ _, hlength⟩ hdigits

theorem spells_chars (stamp : Stamp) :
    Spells stamp.chars ⟨stamp.date, some stamp.time, some stamp.offset⟩ := by
  have hhour := stamp.hour_lt
  have hminute := stamp.minute_lt
  have hsecond := stamp.second_lt
  have hfraction := fractionText_pointed stamp.isDigit_fraction stamp.length_fraction
  have hclock : ClockText true (padded 2 stamp.hour ++ ':' :: (padded 2 stamp.minute ++
      ':' :: (padded 2 stamp.second ++ pointed stamp.fraction)))
      ⟨stamp.hour, stamp.minute, stamp.second, stamp.nanosecond⟩ :=
    .seconds (digits_padded (by decide) (by omega)) (digits_padded (by decide) (by omega))
      (digits_padded (by decide) (by omega)) hfraction
  have htime : TimeText _ stamp.time := .mk hclock ⟨rfl, rfl, Or.inl rfl, rfl⟩
  have hoffset : OffsetText (zoneChars stamp.shift) stamp.offset := by
    unfold zoneChars offset
    cases stamp.shift with
    | none => exact .upper
    | some shift => exact shift.offsetText_chars
  have hspells := Spells.offset (dateText_chars stamp.date) (by decide : isTimeMark 'T' = true) htime hoffset
    (.pairs .nil)
  simpa [chars] using hspells

theorem instant?_eq (stamp : Stamp) :
    Parts.instant? ⟨stamp.date, some stamp.time, some stamp.offset⟩ = Instant.of? stamp.nanoseconds := by
  have hseconds : stamp.offset.seconds? = some stamp.ahead := by
    unfold offset ahead
    cases stamp.shift with
    | none => rfl
    | some shift => exact if_pos shift.natAbs_seconds_lt
  have htime : (stamp.time.seconds : Int) = stamp.hour * 3600 + stamp.minute * 60 + stamp.second := by
    simp [Time.seconds, time]
  have hnanosecond : stamp.time.nanosecond = stamp.nanosecond := rfl
  rw [Parts.instant?, hseconds, Option.bind_some, Instant.ofDateTime?, htime, hnanosecond, nanoseconds]
  congr 1
  dsimp only
  omega

/-- A year that is not negative is far above the first instant. -/
theorem nanoseconds_ge (stamp : Stamp) : -377705023201 * 1000000000 ≤ stamp.nanoseconds := by
  have hyear := stamp.year_nonneg
  have hahead : stamp.ahead < 26 * 3600 := by
    unfold ahead
    cases stamp.shift with
    | none => decide
    | some shift =>
      have hlt := shift.natAbs_seconds_lt
      simp only [Option.map_some, Option.getD_some]
      omega
  have hday : 0 ≤ stamp.date.dayNumber := by
    unfold Date.dayNumber yearStart
    omega
  unfold nanoseconds Instant.epochDay
  omega

/-- The last instant, `9999-12-30T22:00:00.999999999Z`. -/
def last : Stamp where
  date := ⟨9999, 12, 30, by decide, by decide, by decide⟩
  hour := 22
  minute := 0
  second := 0
  fraction := ['9', '9', '9', '9', '9', '9', '9', '9', '9']
  shift := none
  minute_lt := Time.midnight.minute_lt
  second_lt := Time.midnight.second_lt

example : last.text = "9999-12-30T22:00:00.999999999Z" := by decide +kernel

theorem nanoseconds_last : last.nanoseconds = 253402207201 * 1000000000 - 1 := by decide

theorem exists_instant {stamp : Stamp} (h : stamp.nanoseconds ≤ last.nanoseconds) :
    ∃ instant, Instant.of? stamp.nanoseconds = some instant ∧ instant.nanoseconds = stamp.nanoseconds := by
  rw [nanoseconds_last] at h
  have hrange : -377705023201 * 1000000000 ≤ stamp.nanoseconds ∧
      stamp.nanoseconds < 253402207201 * 1000000000 := ⟨stamp.nanoseconds_ge, by omega⟩
  exact ⟨⟨stamp.nanoseconds, hrange.1, hrange.2⟩, dif_pos hrange, rfl⟩

/-- A stamp may be later than all instants. -/
theorem of?_eq_none {stamp : Stamp} (h : last.nanoseconds < stamp.nanoseconds) :
    Instant.of? stamp.nanoseconds = none := by
  rw [nanoseconds_last] at h
  exact dif_neg fun hrange => by omega

end Stamp

end Paging.Calendar
