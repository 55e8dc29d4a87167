import Paging.Binary64.Basic

/-!
Correct rounding of exact numbers to floats. A quotient of natural numbers goes to the nearest
magnitude, and a quotient halfway between two goes to the even one.
-/

namespace Paging

/-- `num / den` rounded to the nearest natural number, a half going to the even neighbour. -/
def roundHalfEven (num den : Nat) : Nat :=
  let quotient := num / den
  let twice := 2 * (num % den)
  if twice < den ∨ (twice = den ∧ quotient % 2 = 0) then quotient else quotient + 1

namespace Binary64

/--
The magnitude nearest to `num / den` units of `2 ^ -1074`. The spacing of the floats around the
quotient is `2 ^ step` units, and a significand that rounds up to `2 ^ 53` carries into the next
exponent by itself. The result may be past the finite magnitudes.
-/
def nearestMagnitude (num den : Nat) : Nat :=
  let step := (num / den).log2 - 52
  (step <<< 52) + roundHalfEven num (den <<< step)

/--
The magnitude nearest to `digits * 10 ^ exponent`. Numbers that are certainly too large or too small
for any float are settled from their size, so that a long exponent costs nothing.
-/
def magnitudeOfDecimal (digits : Nat) (exponent : Int) : Nat :=
  if digits = 0 ∨ exponent < -(400 + digits.log2 : Int) then 0
  else if 400 < exponent then infiniteMagnitude
  else match exponent with
    | .ofNat e => nearestMagnitude ((digits * Nat.pow 10 e) <<< 1074) 1
    | .negSucc e => nearestMagnitude (digits <<< 1074) (Nat.pow 10 (e + 1))

/-- The float nearest to `± digits * 10 ^ exponent`, or `none` where that overflows. -/
def ofDecimal? (negative : Bool) (digits : Nat) (exponent : Int) : Option Binary64 :=
  ofMagnitude? negative (magnitudeOfDecimal digits exponent)

end Binary64

end Paging
