import Paging.Binary64.Basic

/-!
How floats compare with each other and with integers. Floats compare as numbers, and by all of their bits where
one of them is a NaN. An integer is never made a float for that, which could round it. Instead the float is cut
off to an integer, and where that is the same, the float is compared with what is left of it.
-/

namespace Paging.Binary64

/-- The magnitude under the sign of a float. It orders the floats that are no NaN. -/
def signedMagnitude (x : Binary64) : Int := if x.negative then -(x.magnitude : Int) else x.magnitude

/-- How two floats compare as numbers, unless one of them is a NaN. Both zeros are equal. -/
def compareNumbers? (x y : Binary64) : Option Ordering :=
  if x.isNaN || y.isNaN then none else some (compare x.signedMagnitude y.signedMagnitude)

/-- The place of a float in the order of all bits, where the zeros differ and NaN come first or last by sign. -/
def totalRank (x : Binary64) : Int := if x.negative then -(x.magnitude : Int) - 1 else x.magnitude

/-- How two floats compare: as numbers, or else by all of their bits. -/
def compareFloats (x y : Binary64) : Ordering :=
  (x.compareNumbers? y).getD (compare x.totalRank y.totalRank)

def negate (x : Binary64) : Binary64 := { x with negative := !x.negative }

/-- The float without what comes after its point. -/
def truncate (x : Binary64) : Binary64 :=
  let exponent := x.magnitude >>> 52
  if exponent < 1023 then { x with magnitude := 0, magnitude_lt := by decide }
  else if 1075 ≤ exponent then x
  else
    { x with
      magnitude := x.magnitude - x.magnitude % (1 <<< (1075 - exponent))
      magnitude_lt := Nat.lt_of_le_of_lt (Nat.sub_le _ _) x.magnitude_lt }

/-- The integer before the point of a float. -/
def wholePart (x : Binary64) : Int :=
  if x.negative then -((x.units >>> 1074 : Nat) : Int) else (x.units >>> 1074 : Nat)

/-- The integer of 64 bits nearest to the whole part of a float. A NaN has zero. -/
def toInt64 (x : Binary64) : Int64 :=
  if x.isNaN then 0
  else Int64.ofInt (max (-9223372036854775808) (min x.wholePart 9223372036854775807))

/-- The float `2 ^ 63`, the smallest one above every integer of 64 bits. -/
def int64End : Binary64 := ofBits 0x43E0000000000000

/-- How an integer compares with a float, which may be a NaN or out of the range of the integers. -/
def compareInt (i : Int64) (x : Binary64) : Ordering :=
  if x.isNaN then if x.negative then .gt else .lt
  else if (x.compareNumbers? int64End).any Ordering.isGE then .lt
  else if x.compareNumbers? int64End.negate = some .lt then .gt
  else
    let truncated := x.truncate
    (compare i truncated.toInt64).then (truncated.compareFloats x)

end Paging.Binary64
