import Paging.Decimal.Shortest

/-!
The two written forms of a float. The JSON form keeps a point or an exponent in every text, so that a
float never reads as an integer; the plain form never has an exponent and drops a fraction of zero.
-/

namespace Paging

namespace Decimal

/-- Positional digits of `digits * 10 ^ exponent`, without a point when there is no fraction. -/
def positional (digits : List Char) (exponent : Int) : List Char :=
  match exponent with
  | .ofNat e => digits ++ List.replicate e '0'
  | .negSucc e =>
    let places := e + 1
    if places < digits.length then
      digits.take (digits.length - places) ++ '.' :: digits.drop (digits.length - places)
    else '0' :: '.' :: (List.replicate (places - digits.length) '0' ++ digits)

/-- Scientific digits: one digit before the point, and an exponent that always has a sign. -/
def scientific (digits : List Char) (leading : Int) : List Char :=
  let significand := match digits with
    | first :: second :: rest => first :: '.' :: second :: rest
    | _ => digits
  let power := match leading with
    | .ofNat e => '+' :: Nat.toDigits 10 e
    | .negSucc e => '-' :: Nat.toDigits 10 (e + 1)
  significand ++ 'e' :: power

/--
The JSON form of a decimal: positional while the leading digit stands for `10 ^ -5` to `10 ^ 15`,
with `.0` after an integer, and scientific outside.
-/
def jsonForm (d : Decimal) : List Char :=
  let digits := Nat.toDigits 10 d.digits
  let leading := d.exponent + digits.length - 1
  if -5 ≤ leading ∧ leading < 16 then
    if 0 ≤ d.exponent then positional digits d.exponent ++ ['.', '0']
    else positional digits d.exponent
  else scientific digits leading

def plainForm (d : Decimal) : List Char :=
  positional (Nat.toDigits 10 d.digits) d.exponent

end Decimal

namespace Binary64

/-- A minus sign in front of negative numbers, negative zero included. -/
def signed (negative : Bool) (text : List Char) : List Char :=
  if negative then '-' :: text else text

/-- The JSON text of a finite float: the fewest digits that read back, a tie going to the even one. -/
def jsonText (x : Binary64) : List Char :=
  signed x.negative (Decimal.shortest .even x).jsonForm

/-- The plain text of any float: the fewest digits that read back, a tie going up. -/
def plainText (x : Binary64) : List Char :=
  if x.isNaN then ['N', 'a', 'N']
  else if x.isFinite then signed x.negative (Decimal.shortest .up x).plainForm
  else signed x.negative ['i', 'n', 'f']

end Binary64

end Paging
