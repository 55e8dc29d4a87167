import Paging.Binary64.Rounding

/-!
The shortest decimal that reads back as a given float: the point of the coarsest decimal grid that
lies in the interval of numbers rounding to it, and of two such points the nearer. Whether a point
lies in the interval is asked of the reader itself, so what is found reads back by construction.
-/

namespace Paging

structure Decimal where
  digits : Nat
  exponent : Int
  deriving DecidableEq, Repr

namespace Decimal

inductive Tie
  | up
  | even
  deriving DecidableEq, Repr

def ReadsBack (magnitude : Nat) (d : Decimal) : Bool :=
  Binary64.magnitudeOfDecimal d.digits d.exponent == magnitude

/--
The numerator and denominator of `units * 2 ^ -1074` measured on the grid `10 ^ exponent`.
-/
def onGrid (units : Nat) : Int → Nat × Nat
  | .ofNat e => (units, Nat.pow 10 e <<< 1074)
  | .negSucc e => (units * Nat.pow 10 (e + 1), 1 <<< 1074)

/-- Whether of the grid neighbours `lower` and `lower + 1` of `num / den` the lower one is preferred. -/
def prefersLower (tie : Tie) (num den : Nat) : Bool :=
  let lower := num / den
  let twice := 2 * (num % den)
  twice < den || (twice == den && tie == .even && lower % 2 == 0)

/-- The preferred neighbour of a float on one grid, among those of its two that read back. -/
def onGrid? (tie : Tie) (x : Binary64) (exponent : Int) : Option Decimal :=
  let (num, den) := onGrid x.units exponent
  let lower : Decimal := ⟨num / den, exponent⟩
  let upper : Decimal := ⟨num / den + 1, exponent⟩
  let (first, second) := if prefersLower tie num den then (lower, upper) else (upper, lower)
  if ReadsBack x.magnitude first then some first
  else if ReadsBack x.magnitude second then some second
  else none

/--
The first hit on the grids `10 ^ (n - 1074)`, from `n` downwards. Every finite float is a point of
the last grid, since `2 ^ -1074 = 5 ^ 1074 * 10 ^ -1074`.
-/
def shortestFrom (tie : Tie) (x : Binary64) : Nat → Decimal
  | 0 => ⟨x.units * Nat.pow 5 1074, -1074⟩
  | n + 1 =>
    match onGrid? tie x ((n + 1 : Nat) - 1074) with
    | some d => d
    | none => shortestFrom tie x n

/--
The shortest decimal of a finite float's absolute value. The search starts on a grid coarser than
the number: `30103 / 100000` is just above the decimal logarithm of two.
-/
def shortest (tie : Tie) (x : Binary64) : Decimal :=
  if x.magnitude = 0 then ⟨0, 0⟩
  else shortestFrom tie x ((x.units.log2 * 30103 + 1074 * 69897) / 100000 + 2)

end Decimal

end Paging
