import Paging.Json.Value
import Paging.Decimal.Layout

/-!
The written form of JSON values, compact or indented by two spaces. Strings are written raw but for
the quote, the backslash and the control characters below U+0020.
-/

namespace Paging.Json

/-- The lower-case hexadecimal digit of a number below sixteen. -/
def hexDigit (n : Nat) : Char := Nat.digitChar n

/-- One character inside a string. -/
def escapeChar (c : Char) : List Char :=
  if c = '"' then ['\\', '"']
  else if c = '\\' then ['\\', '\\']
  else if c.toNat < 0x20 then
    if c = '\n' then ['\\', 'n']
    else if c = '\r' then ['\\', 'r']
    else if c = '\t' then ['\\', 't']
    else if c.toNat = 0x08 then ['\\', 'b']
    else if c.toNat = 0x0C then ['\\', 'f']
    else ['\\', 'u', '0', '0', hexDigit (c.toNat / 16), hexDigit (c.toNat % 16)]
  else [c]

/-- A string between its quotes. -/
def quote (s : String) : List Char := '"' :: (s.toList.flatMap escapeChar ++ ['"'])

def decimalInt : Int → List Char
  | .ofNat n => Nat.toDigits 10 n
  | .negSucc n => '-' :: Nat.toDigits 10 (n + 1)

def Number.chars : Number → List Char
  | .integer value _ _ => decimalInt value
  | .real value _ => value.jsonText

namespace Value

mutual

/-- The compact form, without any white space. -/
def compact : Value → List Char
  | .null => ['n', 'u', 'l', 'l']
  | .bool true => ['t', 'r', 'u', 'e']
  | .bool false => ['f', 'a', 'l', 's', 'e']
  | .number value => value.chars
  | .string value => quote value
  | .array items => '[' :: (compactItems items ++ [']'])
  | .object members => '{' :: (compactMembers members ++ ['}'])

/-- Items separated by commas. -/
def compactItems : List Value → List Char
  | [] => []
  | [item] => compact item
  | item :: rest => compact item ++ ',' :: compactItems rest

/-- Members separated by commas. -/
def compactMembers : List (String × Value) → List Char
  | [] => []
  | [(key, value)] => quote key ++ ':' :: compact value
  | (key, value) :: rest => quote key ++ ':' :: (compact value ++ ',' :: compactMembers rest)

end

/-- A line break and the white space of a nesting depth. -/
def newline (depth : Nat) : List Char := '\n' :: List.replicate (2 * depth) ' '

mutual

/-- The indented form at a nesting depth. Empty arrays and objects stay on one line. -/
def indented (depth : Nat) : Value → List Char
  | .array [] => ['[', ']']
  | .object [] => ['{', '}']
  | .array items => '[' :: (indentedItems (depth + 1) items ++ newline depth ++ [']'])
  | .object members => '{' :: (indentedMembers (depth + 1) members ++ newline depth ++ ['}'])
  | .null => ['n', 'u', 'l', 'l']
  | .bool true => ['t', 'r', 'u', 'e']
  | .bool false => ['f', 'a', 'l', 's', 'e']
  | .number value => value.chars
  | .string value => quote value

/-- Items on lines of their own. -/
def indentedItems (depth : Nat) : List Value → List Char
  | [] => []
  | [item] => newline depth ++ indented depth item
  | item :: rest => newline depth ++ indented depth item ++ ',' :: indentedItems depth rest

/-- Members on lines of their own. -/
def indentedMembers (depth : Nat) : List (String × Value) → List Char
  | [] => []
  | [(key, value)] => newline depth ++ quote key ++ ':' :: ' ' :: indented depth value
  | (key, value) :: rest =>
    newline depth ++ quote key ++ ':' :: ' ' :: (indented depth value ++
      ',' :: indentedMembers depth rest)

end

/-- The indented text of a value. -/
def pretty (value : Value) : String := String.ofList (indented 0 value)

/-- The compact text of a value. -/
def text (value : Value) : String := String.ofList (compact value)

end Value

end Paging.Json
