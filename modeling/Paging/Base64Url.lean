/-!
Base64 with the alphabet that is safe in addresses, without padding. Each list of bytes has one encoding:
decoding refuses characters outside the alphabet, and a last character with bits that encode nothing.
-/

namespace Paging.Base64Url

def symbol (sextet : Nat) : Char :=
  if sextet < 26 then Char.ofNat ('A'.toNat + sextet)
  else if sextet < 52 then Char.ofNat ('a'.toNat + (sextet - 26))
  else if sextet < 62 then Char.ofNat ('0'.toNat + (sextet - 52))
  else if sextet = 62 then '-'
  else '_'

def sextet? (c : Char) : Option Nat :=
  if 'A' ≤ c ∧ c ≤ 'Z' then some (c.toNat - 'A'.toNat)
  else if 'a' ≤ c ∧ c ≤ 'z' then some (c.toNat - 'a'.toNat + 26)
  else if '0' ≤ c ∧ c ≤ '9' then some (c.toNat - '0'.toNat + 52)
  else if c = '-' then some 62
  else if c = '_' then some 63
  else none

/-- Three bytes make four characters; one or two bytes at the end make two or three. -/
def encode : List UInt8 → List Char
  | a :: b :: c :: rest =>
    let word := (a.toNat * 256 + b.toNat) * 256 + c.toNat
    symbol (word / 64 / 64 / 64) :: symbol (word / 64 / 64 % 64) :: symbol (word / 64 % 64) ::
      symbol (word % 64) :: encode rest
  | [a, b] =>
    let word := (a.toNat * 256 + b.toNat) * 4
    [symbol (word / 64 / 64), symbol (word / 64 % 64), symbol (word % 64)]
  | [a] =>
    let word := a.toNat * 16
    [symbol (word / 64), symbol (word % 64)]
  | [] => []

def decode? : List Char → Option (List UInt8)
  | w :: x :: y :: z :: rest =>
    match sextet? w, sextet? x, sextet? y, sextet? z, decode? rest with
    | some w, some x, some y, some z, some bytes =>
      let word := ((w * 64 + x) * 64 + y) * 64 + z
      some (UInt8.ofNat (word / 256 / 256) :: UInt8.ofNat (word / 256) :: UInt8.ofNat word :: bytes)
    | _, _, _, _, _ => none
  | [w, x, y] =>
    match sextet? w, sextet? x, sextet? y with
    | some w, some x, some y =>
      let word := (w * 64 + x) * 64 + y
      if word % 4 = 0 then some [UInt8.ofNat (word / 4 / 256), UInt8.ofNat (word / 4)] else none
    | _, _, _ => none
  | [w, x] =>
    match sextet? w, sextet? x with
    | some w, some x =>
      let word := w * 64 + x
      if word % 16 = 0 then some [UInt8.ofNat (word / 16)] else none
    | _, _ => none
  | [_] => none
  | [] => some []

end Paging.Base64Url
