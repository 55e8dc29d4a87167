import Paging.Binary64.Basic

/-!
JSON values. Integers are those of 64 bits, signed or unsigned; every other number is a finite float.
The members of an object are kept in ascending order of their keys, which is the order they are
written in, by building objects only with `Object.insert`.
-/

namespace Paging.Json

/-- A number: an integer of 64 bits, signed or unsigned, or a finite float. -/
inductive Number
  | integer (value : Int) (lower : -9223372036854775808 ≤ value)
      (upper : value < 18446744073709551616)
  | real (value : Binary64) (finite : value.isFinite = true)
  deriving DecidableEq, Repr

namespace Number

/-- The number of an unsigned word. -/
def ofWord (word : UInt64) : Number :=
  .integer word.toNat (by omega) (by have := word.toNat_lt; omega)

/-- The number of a signed word. -/
def ofInt64 (word : Int64) : Number :=
  .integer word.toInt word.le_toInt (Int.lt_trans word.toInt_lt (by decide))

/-- The unsigned word that a number is, if it is an integer in range. -/
def word? : Number → Option UInt64
  | .integer value _ _ => if 0 ≤ value then some (UInt64.ofNat value.toNat) else none
  | .real _ _ => none

/-- The number of a count; a count past the words has none. -/
def ofNat? (n : Nat) : Option Number :=
  if h : n < 18446744073709551616 then some (.integer n (by omega) (by omega)) else none

end Number

inductive Value
  | null
  | bool (value : Bool)
  | number (value : Number)
  | string (value : String)
  | array (items : List Value)
  | object (members : List (String × Value))
  deriving Repr, Inhabited

/-- An object: its members in ascending order of their keys, each key once. -/
abbrev Object := List (String × Value)

namespace Object

/-- Puts a member in its place, replacing an earlier one of the same key. -/
def insert (key : String) (value : Value) : Object → Object
  | [] => [(key, value)]
  | (k, v) :: rest =>
    match compare key k with
    | .lt => (key, value) :: (k, v) :: rest
    | .eq => (key, value) :: rest
    | .gt => (k, v) :: insert key value rest

/-- The object of these members; the last of several members with one key stays. -/
def ofList (members : List (String × Value)) : Object :=
  members.foldl (fun object member => object.insert member.1 member.2) []

/-- The value under a key. -/
def get? (object : Object) (key : String) : Option Value := object.lookup key

end Object

namespace Value

/-- The value of an object built from members in any order. -/
def ofMembers (members : List (String × Value)) : Value := .object (Object.ofList members)

/-- The value under a key, where the value is an object that has it. -/
def get? (value : Value) (key : String) : Option Value :=
  match value with
  | .object members => Object.get? members key
  | _ => none

def ofWord (word : UInt64) : Value := .number (.ofWord word)

/-- The number of a count, or `null` for one past the words. -/
def ofNat (n : Nat) : Value := ((Number.ofNat? n).map .number).getD .null

/-- The value, or `null` where there is none. -/
def ofOption : Option Value → Value
  | some value => value
  | none => .null

end Value

end Paging.Json
