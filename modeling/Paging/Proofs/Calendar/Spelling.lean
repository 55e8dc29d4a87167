import Mathlib.Algebra.Order.Ring.Nat
import Mathlib.Data.List.Basic
import Paging.Calendar.Grammar
import Paging.Proofs.Text.Digits

/-!
How dates, times and offsets are spelled. Each part of a text has a relation that says which characters stand
for it, and the reader of that part takes exactly such characters off the front, whatever follows a date and,
after a time or an offset, whatever does not go on with it.
-/

namespace Paging.Calendar

theorem Date.of?_eq_some_iff {year : Int} {month day : Nat} {date : Date} :
    of? year month day = some date ↔ date.year = year ∧ date.month = month ∧ date.day = day := by
  constructor
  · intro h
    obtain ⟨_, ⟨⟩⟩ := Option.dite_none_right_eq_some.mp h
    exact ⟨rfl, rfl, rfl⟩
  · rintro ⟨rfl, rfl, rfl⟩
    rw [of?, dif_pos ⟨date.year_range, date.month_range, date.day_range⟩]

theorem Time.of?_eq_some_iff {hour minute second nanosecond : Nat} {time : Time} :
    of? hour minute second nanosecond = some time ↔
      time.hour = hour ∧ time.minute = minute ∧ time.second = second ∧ time.nanosecond = nanosecond := by
  constructor
  · intro h
    obtain ⟨_, ⟨⟩⟩ := Option.dite_none_right_eq_some.mp h
    exact ⟨rfl, rfl, rfl, rfl⟩
  · rintro ⟨rfl, rfl, rfl, rfl⟩
    rw [of?, dif_pos ⟨time.hour_lt, time.minute_lt, time.second_lt, time.nanosecond_lt⟩]

namespace Grammar

/-- A number in exactly so many digits. -/
structure Digits (count : Nat) (text : List Char) (n : Nat) : Prop where
  length_eq : text.length = count
  isDigit : ∀ c ∈ text, c.isDigit = true
  value_eq : Nat.ofDigitChars 10 text 0 = n

/-- Digits are not taken for the mark of a part. -/
theorem Digits.head?_append {count n : Nat} {text : List Char} (h : Digits (count + 1) text n)
    (rest : List Char) : ∃ c ∈ (text ++ rest).head?, c.isDigit = true := by
  cases text with
  | nil => exact absurd h.length_eq (by simp)
  | cons c tail => exact ⟨c, rfl, h.isDigit c List.mem_cons_self⟩

theorem digits?_eq_some_iff {count n : Nat} {text rest : List Char} :
    digits? count text = some (n, rest) ↔ ∃ digits, text = digits ++ rest ∧ Digits count digits n := by
  constructor
  · intro h
    rw [digits?, Option.ite_none_right_eq_some] at h
    obtain ⟨⟨hlength, hdigits⟩, hread⟩ := h
    cases hread
    exact ⟨text.take count, (List.take_append_drop count text).symm, hlength,
      List.all_eq_true.mp hdigits, rfl⟩
  · rintro ⟨digits, rfl, hlength, hdigits, hvalue⟩
    rw [digits?, List.take_left' hlength, List.drop_left' hlength,
      if_pos ⟨hlength, List.all_eq_true.mpr hdigits⟩, hvalue]

theorem Digits.read {count n : Nat} {text : List Char} (h : Digits count text n) (rest : List Char) :
    digits? count (text ++ rest) = some (n, rest) :=
  digits?_eq_some_iff.mpr ⟨text, rfl, h⟩

/-- A mark that is written in extended form only. -/
def mark (c : Char) (extended : Bool) : List Char := if extended then [c] else []

/-- Four digits, or a sign and six. The year 0 has no minus sign. -/
inductive YearText : List Char → Int → Prop
  | plain {text : List Char} {n : Nat} : Digits 4 text n → YearText text n
  | ahead {text : List Char} {n : Nat} : Digits 6 text n → YearText ('+' :: text) n
  | behind {text : List Char} {n : Nat} : Digits 6 text n → n ≠ 0 → YearText ('-' :: text) (-n)

/-- A year without a sign has four digits. -/
theorem year?_of_digit {text : List Char} (h : ∃ c ∈ text.head?, c.isDigit = true) :
    year? text = (digits? 4 text).map fun (year, rest) => ((year : Int), rest) := by
  obtain ⟨c, hc, hdigit⟩ := h
  unfold year?
  split
  · cases hc
    exact absurd hdigit (by decide)
  · cases hc
    exact absurd hdigit (by decide)
  · rfl

theorem year?_eq_some_iff {year : Int} {text rest : List Char} :
    year? text = some (year, rest) ↔ ∃ front, text = front ++ rest ∧ YearText front year := by
  constructor
  · intro h
    unfold year? at h
    split at h
    · obtain ⟨⟨n, tail⟩, hread, heq⟩ := Option.map_eq_some_iff.mp h
      cases heq
      obtain ⟨digits, rfl, hdigits⟩ := digits?_eq_some_iff.mp hread
      exact ⟨'+' :: digits, rfl, .ahead hdigits⟩
    · split at h
      · rename_i n tail hread
        obtain ⟨hn, heq⟩ := Option.ite_none_left_eq_some.mp h
        cases heq
        obtain ⟨digits, rfl, hdigits⟩ := digits?_eq_some_iff.mp hread
        exact ⟨'-' :: digits, rfl, .behind hdigits hn⟩
      · cases h
    · obtain ⟨⟨n, tail⟩, hread, heq⟩ := Option.map_eq_some_iff.mp h
      cases heq
      obtain ⟨digits, rfl, hdigits⟩ := digits?_eq_some_iff.mp hread
      exact ⟨digits, rfl, .plain hdigits⟩
  · rintro ⟨front, rfl, hyear⟩
    cases hyear with
    | plain hdigits => rw [year?_of_digit (hdigits.head?_append rest), hdigits.read]; rfl
    | ahead hdigits => simp only [List.cons_append, year?, hdigits.read, Option.map_some]
    | behind hdigits hn => simp only [List.cons_append, year?, hdigits.read, if_neg hn]

/-- In extended form there is a hyphen before the month and the day. -/
inductive DateText : List Char → Date → Prop
  | mk {year month day : List Char} {date : Date} (extended : Bool) : YearText year date.year →
      Digits 2 month date.month → Digits 2 day date.day →
      DateText (year ++ (mark '-' extended ++ (month ++ (mark '-' extended ++ day)))) date

theorem hyphen?_eq_some_iff {extended : Bool} {text rest : List Char} :
    (if extended = true then hyphen? text else some text) = some rest ↔
      text = mark '-' extended ++ rest := by
  cases extended with
  | false => simp [mark]
  | true =>
    simp only [mark, if_true, List.cons_append, List.nil_append]
    unfold hyphen?
    split <;> simp_all

/-- Digits in front of a text tell whether there is a mark before them. -/
theorem head?_mark_append {c : Char} (extended : Bool) {text : List Char} (hmark : c.isDigit = false)
    (h : ∃ d ∈ text.head?, d.isDigit = true) : ((mark c extended ++ text).head? == some c) = extended := by
  cases extended with
  | true => simp [mark]
  | false =>
    have hne := head?_ne_of_exists h hmark
    obtain ⟨d, hd, _⟩ := h
    simp [mark, Option.mem_def.mp hd, hne d hd]

/-- What a date has after its year, in the form that the character after the year decides. -/
def monthAndDay? (year : Int) (extended : Bool) (text : List Char) : Option (Date × List Char) :=
  (if extended = true then hyphen? text else some text).bind fun text =>
    (digits? 2 text).bind fun (month, text) =>
      (if extended = true then hyphen? text else some text).bind fun text =>
        (digits? 2 text).bind fun (day, text) => (Date.of? year month day).bind fun date => some (date, text)

theorem date?_eq (text : List Char) :
    date? text = (year? text).bind fun (year, rest) => monthAndDay? year (rest.head? == some '-') rest := by
  simp only [date?, monthAndDay?, Option.bind_eq_bind]
  congr 1
  funext ⟨year, rest⟩
  cases rest.head? == some '-' <;> simp

theorem monthAndDay?_eq_some_iff {year : Int} {extended : Bool} {date : Date} {text rest : List Char} :
    monthAndDay? year extended text = some (date, rest) ↔
      ∃ month day, text = mark '-' extended ++ (month ++ (mark '-' extended ++ (day ++ rest))) ∧
        date.year = year ∧ Digits 2 month date.month ∧ Digits 2 day date.day := by
  simp only [monthAndDay?, Option.bind_eq_some_iff, hyphen?_eq_some_iff]
  constructor
  · rintro ⟨_, rfl, ⟨_, _⟩, hmonth, _, rfl, ⟨_, _⟩, hday, _, hdate, ⟨⟩⟩
    obtain ⟨rfl, rfl, rfl⟩ := Date.of?_eq_some_iff.mp hdate
    obtain ⟨month, rfl, hm⟩ := digits?_eq_some_iff.mp hmonth
    obtain ⟨day, rfl, hd⟩ := digits?_eq_some_iff.mp hday
    exact ⟨month, day, rfl, rfl, hm, hd⟩
  · rintro ⟨month, day, rfl, rfl, hmonth, hday⟩
    exact ⟨_, rfl, _, hmonth.read _, _, rfl, _, hday.read _, date, Date.of?_eq_some_iff.mpr ⟨rfl, rfl, rfl⟩, rfl⟩

theorem date?_eq_some_iff {date : Date} {text rest : List Char} :
    date? text = some (date, rest) ↔ ∃ front, text = front ++ rest ∧ DateText front date := by
  rw [date?_eq, Option.bind_eq_some_iff]
  constructor
  · rintro ⟨⟨_, tail⟩, hyear, htail⟩
    obtain ⟨month, day, htext, rfl, hmonth, hday⟩ := monthAndDay?_eq_some_iff.mp htail
    obtain ⟨year, rfl, hy⟩ := year?_eq_some_iff.mp hyear
    refine ⟨_, ?_, .mk (tail.head? == some '-') hy hmonth hday⟩
    simp only [List.append_assoc, ← htext]
  · rintro ⟨_, rfl, ⟨extended, hyear, hmonth, hday⟩⟩
    rename_i year month day
    refine ⟨(date.year, mark '-' extended ++ (month ++ (mark '-' extended ++ (day ++ rest)))), ?_, ?_⟩
    · exact year?_eq_some_iff.mpr ⟨year, by simp only [List.append_assoc], hyear⟩
    · simp only [head?_mark_append extended (by decide : '-'.isDigit = false) (hmonth.head?_append _)]
      exact monthAndDay?_eq_some_iff.mpr ⟨month, day, rfl, rfl, hmonth, hday⟩

theorem DateText.read {text : List Char} {date : Date} (h : DateText text date) (rest : List Char) :
    date? (text ++ rest) = some (date, rest) :=
  date?_eq_some_iff.mpr ⟨text, rfl, h⟩

/-- What may follow a time: nothing that would go on with its fraction. -/
def EndsTime (rest : List Char) : Prop :=
  ∀ c ∈ rest.head?, c.isDigit = false ∧ c ≠ '.' ∧ c ≠ ','

/-- What may follow a clock, which may end before its seconds. -/
structure EndsClock (rest : List Char) : Prop where
  endsTime : EndsTime rest
  noColon : ∀ c ∈ rest.head?, c ≠ ':'

theorem Digits.startsWithTwoDigits {n : Nat} {text : List Char} (h : Digits 2 text n) (rest : List Char) :
    startsWithTwoDigits (text ++ rest) = true := by
  obtain ⟨a, b, rfl⟩ := List.length_eq_two.mp h.length_eq
  simp [Grammar.startsWithTwoDigits, h.isDigit a (by simp), h.isDigit b (by simp)]

theorem part?_some_iff {extended : Bool} {n : Nat} {text rest : List Char} :
    part? extended text = some (some n, rest) ↔
      ∃ digits, text = mark ':' extended ++ (digits ++ rest) ∧ Digits 2 digits n := by
  constructor
  · intro h
    unfold part? at h
    split at h
    · split at h
      · obtain ⟨⟨_, _⟩, hread, ⟨⟩⟩ := Option.map_eq_some_iff.mp h
        obtain ⟨digits, rfl, hdigits⟩ := digits?_eq_some_iff.mp hread
        exact ⟨digits, by simp [mark, *], hdigits⟩
      · cases h
    · split at h
      · obtain ⟨⟨_, _⟩, hread, ⟨⟩⟩ := Option.map_eq_some_iff.mp h
        obtain ⟨digits, rfl, hdigits⟩ := digits?_eq_some_iff.mp hread
        exact ⟨digits, by simp [mark, *], hdigits⟩
      · cases h
  · rintro ⟨digits, rfl, hdigits⟩
    cases extended with
    | true => simp [part?, mark, hdigits.read]
    | false => simp [part?, mark, hdigits.startsWithTwoDigits, hdigits.read]

theorem Digits.readPart {n : Nat} {text : List Char} (h : Digits 2 text n) (extended : Bool)
    (rest : List Char) : part? extended (mark ':' extended ++ (text ++ rest)) = some (some n, rest) :=
  part?_some_iff.mpr ⟨text, rfl, h⟩

theorem eq_of_part?_none {extended : Bool} {text rest : List Char}
    (h : part? extended text = some (none, rest)) : text = rest := by
  unfold part? at h
  split at h
  · split at h
    · obtain ⟨_, _, ⟨⟩⟩ := Option.map_eq_some_iff.mp h
    · cases h
      rfl
  · split at h
    · obtain ⟨_, _, ⟨⟩⟩ := Option.map_eq_some_iff.mp h
    · cases h
      rfl

theorem EndsClock.part?_eq {rest : List Char} (h : EndsClock rest) (extended : Bool) :
    part? extended rest = some (none, rest) := by
  cases rest with
  | nil => cases extended <;> rfl
  | cons c rest =>
    obtain ⟨hdigit, _⟩ := h.endsTime c rfl
    cases extended with
    | true => simp [part?, h.noColon c rfl]
    | false => cases rest <;> simp [part?, startsWithTwoDigits, hdigit]

/-- Nothing, or one to nine digits after a point or a comma, in nanoseconds. -/
inductive FractionText : List Char → Nat → Prop
  | whole : FractionText [] 0
  | digits {point : Char} {digits : List Char} : point = '.' ∨ point = ',' →
      1 ≤ digits.length ∧ digits.length ≤ 9 → (∀ c ∈ digits, c.isDigit = true) →
      FractionText (point :: digits) (Nat.ofDigitChars 10 digits 0 * 10 ^ (9 - digits.length))

theorem ofDigitChars_append_zeros (digits : List Char) (zeros : Nat) :
    Nat.ofDigitChars 10 (digits ++ List.replicate zeros '0') 0 =
      Nat.ofDigitChars 10 digits 0 * 10 ^ zeros := by
  rw [Nat.ofDigitChars_append, Nat.ofDigitChars_replicate_zero, Nat.mul_comm]

theorem exists_fraction_of_fraction? {nanosecond : Nat} {text rest : List Char}
    (h : fraction? text = some (nanosecond, rest)) :
    ∃ front, text = front ++ rest ∧ FractionText front nanosecond := by
  unfold fraction? at h
  split at h
  · rename_i point text
    split at h
    · rename_i hpoint
      obtain ⟨hlength, ⟨⟩⟩ := Option.ite_none_right_eq_some.mp h
      refine ⟨point :: text.takeWhile Char.isDigit, by simp, ?_⟩
      rw [ofDigitChars_append_zeros]
      exact .digits hpoint hlength (List.all_eq_true.mp List.all_takeWhile)
    · cases h
      exact ⟨[], rfl, .whole⟩
  · cases h
    exact ⟨[], rfl, .whole⟩

theorem FractionText.read {nanosecond : Nat} {text rest : List Char} (h : FractionText text nanosecond)
    (hrest : EndsTime rest) : fraction? (text ++ rest) = some (nanosecond, rest) := by
  cases h with
  | whole =>
    cases rest with
    | nil => rfl
    | cons c rest =>
      obtain ⟨_, hpoint, hcomma⟩ := hrest c rfl
      simp [fraction?, hpoint, hcomma]
  | digits hpoint hlength hdigits =>
    have hstop : ∀ c ∈ rest.head?, c.isDigit = false := fun c hc => (hrest c hc).1
    rw [List.cons_append, fraction?, if_pos hpoint, takeWhile_append_stop hdigits hstop,
      dropWhile_append_stop hdigits hstop]
    simp only [if_pos hlength, ofDigitChars_append_zeros]

/-- Hours, and as many parts after them as are written, in extended form each after a colon. -/
inductive ClockText (extended : Bool) : List Char → Clock → Prop
  | hours {h : List Char} {hour : Nat} : Digits 2 h hour → ClockText extended h ⟨hour, 0, 0, 0⟩
  | minutes {h m : List Char} {hour minute : Nat} : Digits 2 h hour → Digits 2 m minute →
      ClockText extended (h ++ (mark ':' extended ++ m)) ⟨hour, minute, 0, 0⟩
  | seconds {h m s f : List Char} {hour minute second nanosecond : Nat} : Digits 2 h hour →
      Digits 2 m minute → Digits 2 s second → FractionText f nanosecond →
      ClockText extended (h ++ (mark ':' extended ++ (m ++ (mark ':' extended ++ (s ++ f)))))
        ⟨hour, minute, second, nanosecond⟩

theorem exists_clock_of_clock? {clock : Clock} {text rest : List Char}
    (h : clock? text = some (clock, rest)) :
    ∃ extended front, text = front ++ rest ∧ ClockText extended front clock := by
  simp only [clock?, Option.bind_eq_bind, Option.bind_eq_some_iff] at h
  obtain ⟨⟨hour, afterHour⟩, hread, ⟨minute?, afterMinute⟩, hpart, h⟩ := h
  obtain ⟨front, rfl, hhour⟩ := digits?_eq_some_iff.mp hread
  generalize (afterHour.head? == some ':') = extended at hpart h
  refine ⟨extended, ?_⟩
  cases minute? with
  | none =>
    obtain rfl := eq_of_part?_none hpart
    cases h
    exact ⟨front, rfl, .hours hhour⟩
  | some minute =>
    obtain ⟨_, rfl, hminute⟩ := part?_some_iff.mp hpart
    simp only [Option.bind_eq_some_iff] at h
    obtain ⟨⟨second?, afterSecond⟩, hpart', h⟩ := h
    cases second? with
    | none =>
      obtain rfl := eq_of_part?_none hpart'
      cases h
      exact ⟨_, by simp only [List.append_assoc], .minutes hhour hminute⟩
    | some second =>
      obtain ⟨_, rfl, hsecond⟩ := part?_some_iff.mp hpart'
      simp only [Option.bind_eq_some_iff] at h
      obtain ⟨⟨nanosecond, afterFraction⟩, hread', ⟨⟩⟩ := h
      obtain ⟨_, rfl, hfraction⟩ := exists_fraction_of_fraction? hread'
      exact ⟨_, by simp only [List.append_assoc], .seconds hhour hminute hsecond hfraction⟩

theorem ClockText.read {extended : Bool} {clock : Clock} {text rest : List Char}
    (h : ClockText extended text clock) (hrest : EndsClock rest) :
    clock? (text ++ rest) = some (clock, rest) := by
  cases h with
  | hours hhour => simp [clock?, hhour.read, hrest.part?_eq]
  | minutes hhour hminute =>
    have hcolon := head?_mark_append extended (by decide : ':'.isDigit = false) (hminute.head?_append rest)
    simp [-List.head?_append, clock?, hhour.read, hcolon, hminute.readPart, hrest.part?_eq]
  | seconds hhour hminute hsecond hfraction =>
    have hcolon := fun rest =>
      head?_mark_append extended (by decide : ':'.isDigit = false) (hminute.head?_append rest)
    simp [-List.head?_append, clock?, hhour.read, hcolon, hminute.readPart, hsecond.readPart,
      hfraction.read hrest.endsTime]

/-- A time of day on a clock, where a leap second is the second before it. -/
structure Clock.Reads (clock : Clock) (time : Time) : Prop where
  hour_eq : clock.hour = time.hour
  minute_eq : clock.minute = time.minute
  second_eq : clock.second = time.second ∨ clock.second = 60 ∧ time.second = 59
  nanosecond_eq : clock.nanosecond = time.nanosecond

inductive TimeText : List Char → Time → Prop
  | mk {extended : Bool} {text : List Char} {clock : Clock} {time : Time} : ClockText extended text clock →
      clock.Reads time → TimeText text time

theorem exists_time_of_time? {time : Time} {text rest : List Char} (h : time? text = some (time, rest)) :
    ∃ front, text = front ++ rest ∧ TimeText front time := by
  simp only [time?, Option.bind_eq_bind, Option.bind_eq_some_iff] at h
  obtain ⟨⟨clock, _⟩, hread, time', htime, ⟨⟩⟩ := h
  obtain ⟨extended, front, rfl, hclock⟩ := exists_clock_of_clock? hread
  refine ⟨front, rfl, hclock, ?_⟩
  obtain ⟨hhour, hminute, hsecond, hnanosecond⟩ := Time.of?_eq_some_iff.mp htime
  refine ⟨hhour.symm, hminute.symm, ?_, hnanosecond.symm⟩
  split at hsecond
  · exact Or.inr ⟨‹_›, hsecond⟩
  · exact Or.inl hsecond.symm

theorem TimeText.read {time : Time} {text rest : List Char} (h : TimeText text time)
    (hrest : EndsClock rest) : time? (text ++ rest) = some (time, rest) := by
  obtain ⟨hclock, hhour, hminute, hsecond, hnanosecond⟩ := h
  rename_i clock
  have hlt := time.second_lt
  have hleap : (if clock.second = 60 then 59 else clock.second) = time.second := by
    split <;> omega
  have hof : Time.of? time.hour time.minute time.second time.nanosecond = some time :=
    Time.of?_eq_some_iff.mpr ⟨rfl, rfl, rfl, rfl⟩
  simp [time?, hclock.read hrest, hhour, hminute, hleap, hnanosecond, hof]

/-- The mark of universal time, or a clock after a sign that says whether it is ahead of universal time. -/
inductive OffsetText : List Char → Offset → Prop
  | upper : OffsetText ['Z'] .universal
  | lower : OffsetText ['z'] .universal
  | ahead {extended : Bool} {text : List Char} {clock : Clock} : ClockText extended text clock →
      clock.isOffset = true → OffsetText ('+' :: text) (.numeric clock.offsetSeconds)
  | behind {extended : Bool} {text : List Char} {clock : Clock} : ClockText extended text clock →
      clock.isOffset = true → OffsetText ('-' :: text) (.numeric (-clock.offsetSeconds))

theorem numericOffset?_eq_some {negative : Bool} {offset : Offset} {text rest : List Char}
    (h : numericOffset? negative text = some (offset, rest)) :
    ∃ extended front clock, text = front ++ rest ∧ ClockText extended front clock ∧
      clock.isOffset = true ∧
      offset = .numeric (if negative then -clock.offsetSeconds else clock.offsetSeconds) := by
  simp only [numericOffset?, Option.bind_eq_bind, Option.bind_eq_some_iff] at h
  obtain ⟨⟨clock, _⟩, hread, h⟩ := h
  obtain ⟨hrange, ⟨⟩⟩ := Option.ite_none_right_eq_some.mp h
  obtain ⟨extended, front, rfl, hclock⟩ := exists_clock_of_clock? hread
  exact ⟨extended, front, clock, rfl, hclock, hrange, rfl⟩

theorem exists_offset_of_offset? {offset : Offset} {text rest : List Char}
    (h : offset? text = some (some offset, rest)) :
    ∃ front, text = front ++ rest ∧ OffsetText front offset := by
  unfold offset? at h
  split at h
  · cases h
    exact ⟨['Z'], rfl, .upper⟩
  · cases h
    exact ⟨['z'], rfl, .lower⟩
  · obtain ⟨⟨_, _⟩, hread, ⟨⟩⟩ := Option.map_eq_some_iff.mp h
    obtain ⟨extended, front, clock, rfl, hclock, hrange, rfl⟩ := numericOffset?_eq_some hread
    exact ⟨'+' :: front, rfl, .ahead hclock hrange⟩
  · obtain ⟨⟨_, _⟩, hread, ⟨⟩⟩ := Option.map_eq_some_iff.mp h
    obtain ⟨extended, front, clock, rfl, hclock, hrange, rfl⟩ := numericOffset?_eq_some hread
    exact ⟨'-' :: front, rfl, .behind hclock hrange⟩
  · cases h

theorem eq_of_offset?_none {text rest : List Char} (h : offset? text = some (none, rest)) : text = rest := by
  unfold offset? at h
  split at h
  · cases h
  · cases h
  · obtain ⟨_, _, ⟨⟩⟩ := Option.map_eq_some_iff.mp h
  · obtain ⟨_, _, ⟨⟩⟩ := Option.map_eq_some_iff.mp h
  · cases h
    rfl

theorem OffsetText.read {offset : Offset} {text rest : List Char} (h : OffsetText text offset)
    (hrest : EndsClock rest) : offset? (text ++ rest) = some (some offset, rest) := by
  cases h with
  | upper => rfl
  | lower => rfl
  | ahead hclock hrange => simp [offset?, numericOffset?, hclock.read hrest, hrange]
  | behind hclock hrange => simp [offset?, numericOffset?, hclock.read hrest, hrange]

end Grammar

end Paging.Calendar
