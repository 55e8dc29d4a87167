/-!
Universally unique identifiers: 128 bits, written as 32 hexadecimal digits in groups of 8, 4,
4, 4 and 12 joined by hyphens.
-/

namespace Paging

structure Uuid where
  bits : BitVec 128
  deriving DecidableEq, Repr

namespace Uuid

instance : Ord Uuid where
  compare := compareOn (·.bits.toNat)

def hexValue? (c : Char) : Option Nat :=
  if '0' ≤ c ∧ c ≤ '9' then some (c.toNat - '0'.toNat)
  else if 'a' ≤ c ∧ c ≤ 'f' then some (c.toNat - 'a'.toNat + 10)
  else if 'A' ≤ c ∧ c ≤ 'F' then some (c.toNat - 'A'.toNat + 10)
  else none

/-- The number that hexadecimal digits spell out, after `value`. -/
def hexNumber? (value : Nat) : List Char → Option Nat
  | [] => some value
  | c :: rest => (hexValue? c).bind fun digit => hexNumber? (value * 16 + digit) rest

def ofHex? (digits : List Char) : Option Uuid :=
  if digits.length = 32 then (hexNumber? 0 digits).map fun number => ⟨BitVec.ofNat 128 number⟩ else none

/-- The lower-case hexadecimal digits of a number, `count` of them. -/
def hexDigits : Nat → Nat → List Char
  | 0, _ => []
  | count + 1, value => hexDigits count (value / 16) ++ [Nat.digitChar (value % 16)]

def laterGroups : List Nat := [4, 4, 4, 12]

/-- Puts a hyphen and a group of each size after the other. -/
def hyphenate : List Nat → List Char → List Char
  | [], digits => digits
  | size :: sizes, digits => '-' :: (digits.take size ++ hyphenate sizes (digits.drop size))

def chars (uuid : Uuid) : List Char :=
  let digits := hexDigits 32 uuid.bits.toNat
  digits.take 8 ++ hyphenate laterGroups (digits.drop 8)

/-- The digits of groups of these sizes, each after a hyphen, that make up the whole text. -/
def unhyphenate? : List Nat → List Char → Option (List Char)
  | [], [] => some []
  | size :: sizes, '-' :: text => (unhyphenate? sizes (text.drop size)).map (text.take size ++ ·)
  | _, _ => none

def ofHyphenated? (text : List Char) : Option Uuid :=
  (unhyphenate? laterGroups (text.drop 8)).bind fun digits => ofHex? (text.take 8 ++ digits)

/-- The rest of a text after the name of the identifiers' namespace, in any case of letters. -/
def dropNamespace? (text : List Char) : Option (List Char) :=
  if (text.take 9).map Char.toLower = ['u', 'r', 'n', ':', 'u', 'u', 'i', 'd', ':'] then
    some (text.drop 9)
  else none

/-- Reads bare digits, and the hyphenated form plain, between braces or after its namespace. -/
def ofChars? (text : List Char) : Option Uuid :=
  if text.length = 32 then ofHex? text
  else if text.length = 36 then ofHyphenated? text
  else if text.length = 38 ∧ text.head? = some '{' ∧ text.getLast? = some '}' then
    ofHyphenated? (text.tail.dropLast)
  else if text.length = 45 then (dropNamespace? text).bind ofHyphenated?
  else none

end Uuid

end Paging
