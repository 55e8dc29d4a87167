/-!
Floating-point numbers of 64 bits, kept as a sign and a magnitude, the other 63 bits. Magnitudes order
the numbers of one sign, NaN payloads included, so no arithmetic on floats is needed to compare them.
-/

namespace Paging

/-- A 64-bit float: its sign bit and its exponent and fraction bits read as one number. -/
structure Binary64 where
  negative : Bool
  magnitude : Nat
  magnitude_lt : magnitude < 1 <<< 63
  deriving DecidableEq, Repr

namespace Binary64

/-- The magnitude of the infinities. Smaller magnitudes are finite, larger ones are NaN. -/
def infiniteMagnitude : Nat := 2047 <<< 52

/-- The float whose sign bit, exponent and fraction are the bits of `word`. -/
def ofBits (word : UInt64) : Binary64 where
  negative := decide (1 <<< 63 ≤ word.toNat)
  magnitude := word.toNat % (1 <<< 63)
  magnitude_lt := Nat.mod_lt _ (by decide)

/-- The bits of `x` as one number below `2 ^ 64`. -/
def toBits (x : Binary64) : Nat :=
  (if x.negative then 1 <<< 63 else 0) + x.magnitude

def isFinite (x : Binary64) : Bool := decide (x.magnitude < infiniteMagnitude)

def isNaN (x : Binary64) : Bool := decide (infiniteMagnitude < x.magnitude)

/-- The finite float of this magnitude and sign, if the magnitude is that of a finite float. -/
def ofMagnitude? (negative : Bool) (magnitude : Nat) : Option Binary64 :=
  if h : magnitude < infiniteMagnitude then
    some ⟨negative, magnitude, Nat.lt_trans h (by decide)⟩
  else none

/--
The absolute value in units of `2 ^ -1074`, the smallest positive float. Past the finite floats the
same formula goes on growing, so infinity and the NaN payloads keep their order.
-/
def units (x : Binary64) : Nat :=
  let exponent := x.magnitude >>> 52
  let fraction := x.magnitude % (1 <<< 52)
  if exponent = 0 then fraction else ((1 <<< 52) + fraction) <<< (exponent - 1)

end Binary64

end Paging
