import Paging.Calendar.Time

/-!
Reading dates and times. One grammar serves all of them: a date, then optionally a time, a numeric or
universal offset after the time, and bracketed annotations. What a text gives as a date, as a date and
time and as an instant is decided afterwards, from the parts it has.

Each reader takes a part off the front of the text and returns what follows it.
-/

namespace Paging.Calendar

namespace Grammar

def digits? (count : Nat) (text : List Char) : Option (Nat × List Char) :=
  let digits := text.take count
  if digits.length = count ∧ digits.all Char.isDigit then
    some (Nat.ofDigitChars 10 digits 0, text.drop count)
  else none

/-- A year of four digits, or of six after a sign. There is no negative year 0. -/
def year? : List Char → Option (Int × List Char)
  | '+' :: rest => (digits? 6 rest).map fun (year, rest) => ((year : Int), rest)
  | '-' :: rest =>
    match digits? 6 rest with
    | some (year, rest) => if year = 0 then none else some (-(year : Int), rest)
    | none => none
  | rest => (digits? 4 rest).map fun (year, rest) => ((year : Int), rest)

def hyphen? : List Char → Option (List Char)
  | '-' :: rest => some rest
  | _ => none

/-- A date. A hyphen after the year asks for one after the month. -/
def date? (text : List Char) : Option (Date × List Char) := do
  let (year, rest) ← year? text
  let extended := rest.head? == some '-'
  let rest ← if extended then hyphen? rest else some rest
  let (month, rest) ← digits? 2 rest
  let rest ← if extended then hyphen? rest else some rest
  let (day, rest) ← digits? 2 rest
  let date ← Date.of? year month day
  return (date, rest)

def startsWithTwoDigits : List Char → Bool
  | a :: b :: _ => a.isDigit && b.isDigit
  | _ => false

/--
The next part of a time or an offset, if there is one: two digits after a colon in extended form, and
bare digits otherwise. A colon that no digits follow is a fault.
-/
def part? (extended : Bool) (text : List Char) : Option (Option Nat × List Char) :=
  if extended then
    match text with
    | ':' :: rest => (digits? 2 rest).map fun (part, rest) => (some part, rest)
    | rest => some (none, rest)
  else if startsWithTwoDigits text then
    (digits? 2 text).map fun (part, rest) => (some part, rest)
  else some (none, text)

/-- A fraction of a second in nanoseconds, of one to nine digits after a point or a comma. -/
def fraction? : List Char → Option (Nat × List Char)
  | mark :: rest =>
    if mark = '.' ∨ mark = ',' then
      let digits := rest.takeWhile Char.isDigit
      if 1 ≤ digits.length ∧ digits.length ≤ 9 then
        some (Nat.ofDigitChars 10 (digits ++ List.replicate (9 - digits.length) '0') 0,
          rest.dropWhile Char.isDigit)
      else none
    else some (0, mark :: rest)
  | [] => some (0, [])

/-- Hours, minutes, seconds and nanoseconds; what is not written is zero. -/
structure Clock where
  hour : Nat
  minute : Nat
  second : Nat
  nanosecond : Nat

/-- Two digits of hours, and as many further parts as are written. A fraction needs seconds. -/
def clock? (text : List Char) : Option (Clock × List Char) := do
  let (hour, rest) ← digits? 2 text
  let extended := rest.head? == some ':'
  match ← part? extended rest with
  | (none, rest) => return (⟨hour, 0, 0, 0⟩, rest)
  | (some minute, rest) =>
    match ← part? extended rest with
    | (none, rest) => return (⟨hour, minute, 0, 0⟩, rest)
    | (some second, rest) =>
      let (nanosecond, rest) ← fraction? rest
      return (⟨hour, minute, second, nanosecond⟩, rest)

/-- A time of day. A leap second is read as the second before it. -/
def time? (text : List Char) : Option (Time × List Char) := do
  let (clock, rest) ← clock? text
  let second := if clock.second = 60 then 59 else clock.second
  let time ← Time.of? clock.hour clock.minute second clock.nanosecond
  return (time, rest)

/-- How far a clock is ahead of universal time. A text may also name universal time itself. -/
inductive Offset
  | universal
  | numeric (seconds : Int)
  deriving DecidableEq, Repr

/-- Seconds of an offset's clock, half a second counting as a whole one. -/
def Clock.offsetSeconds (clock : Clock) : Nat :=
  clock.hour * 3600 + clock.minute * 60 + clock.second +
    if 500000000 ≤ clock.nanosecond then 1 else 0

/-- Offsets are written with up to 25 hours, 59 minutes and 59 seconds. -/
def Clock.isOffset (clock : Clock) : Bool :=
  decide (clock.hour ≤ 25 ∧ clock.minute ≤ 59 ∧ clock.second ≤ 59)

def numericOffset? (negative : Bool) (text : List Char) : Option (Offset × List Char) := do
  let (clock, rest) ← clock? text
  if clock.isOffset then
    let seconds : Int := clock.offsetSeconds
    return (.numeric (if negative then -seconds else seconds), rest)
  else none

/-- The offset at the front of a text, if it starts like one. -/
def offset? : List Char → Option (Option Offset × List Char)
  | 'Z' :: rest => some (some .universal, rest)
  | 'z' :: rest => some (some .universal, rest)
  | '+' :: rest => (numericOffset? false rest).map fun (offset, rest) => (some offset, rest)
  | '-' :: rest => (numericOffset? true rest).map fun (offset, rest) => (some offset, rest)
  | rest => some (none, rest)

def isLower (c : Char) : Bool := decide ('a' ≤ c ∧ c ≤ 'z')

def isLetter (c : Char) : Bool := isLower c || decide ('A' ≤ c ∧ c ≤ 'Z')

def isNameStart (c : Char) : Bool := isLetter c || c == '_' || c == '.'

def isNameChar (c : Char) : Bool := isNameStart c || c.isDigit || c == '+' || c == '-'

def isKeyStart (c : Char) : Bool := isLower c || c == '_'

def isKeyChar (c : Char) : Bool := isKeyStart c || c.isDigit || c == '-'

def isValueChar (c : Char) : Bool := isLetter c || c.isDigit

/-- Skips a character of the class `start` and all characters of the class `more` after it. -/
def skipWord? (start more : Char → Bool) : List Char → Option (List Char)
  | c :: rest => if start c then some (rest.dropWhile more) else none
  | [] => none

theorem skipWord?_length {start more : Char → Bool} {text rest : List Char}
    (h : skipWord? start more text = some rest) : rest.length < text.length := by
  unfold skipWord? at h
  split at h
  · rename_i c tail
    split at h
    · simp only [Option.some.injEq] at h
      have := (List.dropWhile_sublist (l := tail) more).length_le
      simp only [List.length_cons, ← h]
      omega
    · simp at h
  · simp at h

/-- Skips words that a separator joins, after the first of them. -/
def skipJoined? (separator : Char) (start more : Char → Bool) : List Char → Option (List Char)
  | c :: rest =>
    if c = separator then
      match h : skipWord? start more rest with
      | some rest =>
        have := skipWord?_length h
        skipJoined? separator start more rest
      | none => none
    else some (c :: rest)
  | [] => some []
termination_by text => text.length

def close? : List Char → Option (List Char)
  | ']' :: rest => some rest
  | _ => none

/-- Skips an offset of hours and minutes. Neither seconds nor a third colon may follow. -/
def skipZoneOffset? (text : List Char) : Option (List Char) := do
  let (hour, rest) ← digits? 2 text
  let (minute, rest) ← part? (rest.head? == some ':') rest
  if hour ≤ 25 ∧ minute.getD 0 ≤ 59 then some rest else none

/-- Drops the mark of an annotation that must be understood, telling whether there was one. -/
def critical : List Char → Bool × List Char
  | '!' :: rest => (true, rest)
  | rest => (false, rest)

/--
Skips a time zone annotation: an offset, or a name of words joined by slashes that is never looked up. An
annotation whose first word ends in an equals sign is none, and is left in place.
-/
def skipZone? : List Char → Option (List Char)
  | '[' :: rest =>
    match (critical rest).2 with
    | '+' :: zone => (skipZoneOffset? zone).bind close?
    | '-' :: zone => (skipZoneOffset? zone).bind close?
    | zone =>
      match skipWord? isNameStart isNameChar zone with
      | none => none
      | some ('=' :: _) => some ('[' :: rest)
      | some more => (skipJoined? '/' isNameStart isNameChar more).bind close?
  | rest => some rest

theorem skipJoined?_length {separator : Char} {start more : Char → Bool} {text rest : List Char}
    (h : skipJoined? separator start more text = some rest) : rest.length ≤ text.length := by
  fun_induction skipJoined? separator start more text with
  | case1 text tail hskip hlt ih =>
    have := ih h
    simp only [List.length_cons]
    omega
  | case2 => simp at h
  | case3 => simp_all
  | case4 => simp_all

/-- Skips one annotation of a key and values joined by hyphens, after its opening bracket. -/
def skipPair? (text : List Char) : Option (List Char) :=
  match skipWord? isKeyStart isKeyChar (critical text).2 with
  | some ('=' :: values) =>
    match skipWord? isValueChar isValueChar values with
    | some more =>
      match skipJoined? '-' isValueChar isValueChar more with
      | some (']' :: rest) => if (critical text).1 then none else some rest
      | _ => none
    | none => none
  | _ => none

theorem critical_length (text : List Char) : (critical text).2.length ≤ text.length := by
  fun_cases critical text <;> simp

theorem skipPair?_length {text rest : List Char} (h : skipPair? text = some rest) :
    rest.length < text.length := by
  unfold skipPair? at h
  have hmark := critical_length text
  split at h
  · rename_i values hkey
    have hkey := skipWord?_length hkey
    split at h
    · rename_i more hvalue
      have hvalue := skipWord?_length hvalue
      split at h
      · rename_i tail hjoined
        have hjoined := skipJoined?_length hjoined
        simp only [List.length_cons] at hkey hjoined
        split at h
        · simp at h
        · simp only [Option.some.injEq] at h
          subst h
          omega
      · simp at h
    · simp at h
  · simp at h

/-- Skips annotations to the end of the text, which must come after them. -/
def skipPairs? : List Char → Option Unit
  | [] => some ()
  | '[' :: text =>
    match h : skipPair? text with
    | some rest =>
      have := skipPair?_length h
      skipPairs? rest
    | none => none
  | _ :: _ => none
termination_by text => text.length

/-- Whether a text consists of annotations: at most one time zone, then keys with values. -/
def annotations? (text : List Char) : Option Unit := (skipZone? text).bind skipPairs?

structure Parts where
  date : Date
  time : Option Time
  offset : Option Offset

def isTimeMark (c : Char) : Bool := c == 'T' || c == 't' || c == ' '

def parts? (text : List Char) : Option Parts := do
  let (date, rest) ← date? text
  match rest with
  | mark :: more =>
    if isTimeMark mark then
      let (time, rest) ← time? more
      let (offset, rest) ← offset? rest
      annotations? rest
      return ⟨date, some time, offset⟩
    else
      annotations? rest
      return ⟨date, none, none⟩
  | [] => return ⟨date, none, none⟩

end Grammar

open Grammar

/-- The date and time that a text names. It may not name universal time; other offsets are ignored. -/
def DateTime.ofText? (text : String) : Option DateTime :=
  match parts? text.toList with
  | some ⟨_, _, some .universal⟩ => none
  | some ⟨date, time, _⟩ => some ⟨date, time.getD Time.midnight⟩
  | none => none

/-- The date that a text names, whatever the time it has. -/
def Date.ofText? (text : String) : Option Date := (DateTime.ofText? text).map (·.date)

/-- How many seconds a clock of an offset is ahead. A fraction may not carry it to 26 hours. -/
def Grammar.Offset.seconds? : Offset → Option Int
  | .universal => some 0
  | .numeric seconds => if seconds.natAbs < 26 * 3600 then some seconds else none

/-- The instant that a text names with a time and an offset. -/
def Instant.ofText? (text : String) : Option Instant :=
  match parts? text.toList with
  | some ⟨date, some time, some offset⟩ => offset.seconds?.bind (Instant.ofDateTime? ⟨date, time⟩)
  | _ => none

end Paging.Calendar
