import Paging.Calendar.Time

/-!
The canonical texts of dates, times and instants: `YYYY-MM-DD`, a `T` before the time, fractions of a
second without trailing zeros, and a `Z` after instants. A year before the year 0 has a sign and six
digits.
-/

namespace Paging.Calendar

def padded (width n : Nat) : List Char :=
  let digits := Nat.toDigits 10 n
  List.replicate (width - digits.length) '0' ++ digits

/-- A year in four digits, or with a minus sign in six. -/
def yearChars : Int → List Char
  | .ofNat year => padded 4 year
  | .negSucc year => '-' :: padded 6 (year + 1)

def Date.chars (date : Date) : List Char :=
  yearChars date.year ++ '-' :: (padded 2 date.month ++ '-' :: padded 2 date.day)

/-- The fraction of a second, without its trailing zeros; no text for a whole second. -/
def fractionChars (nanosecond : Nat) : List Char :=
  if nanosecond = 0 then []
  else '.' :: ((padded 9 nanosecond).reverse.dropWhile (· == '0')).reverse

def Time.chars (time : Time) : List Char :=
  padded 2 time.hour ++ ':' :: (padded 2 time.minute ++ ':' :: (padded 2 time.second ++
    fractionChars time.nanosecond))

def DateTime.chars (dateTime : DateTime) : List Char :=
  dateTime.date.chars ++ 'T' :: dateTime.time.chars

def Instant.chars (instant : Instant) : List Char := instant.toDateTime.chars ++ ['Z']

end Paging.Calendar
