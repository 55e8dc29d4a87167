import Paging.Scalar.Basic
import Paging.Decimal.Layout
import Paging.Calendar.Printer
import Paging.Calendar.Grammar
import Paging.Json.Printer

/-!
Scalars as text and as JSON. Every scalar has a text. A text is read as the most specific scalar that it
can name: an instant, else a plain date, else a date with a time, else itself.
-/

namespace Paging.Scalar

open Calendar

/-- The text of a scalar. Text stands for itself. -/
def chars : Scalar → List Char
  | .bool true => ['t', 'r', 'u', 'e']
  | .bool false => ['f', 'a', 'l', 's', 'e']
  | .int value => Json.decimalInt value.toInt
  | .float value => value.plainText
  | .text value => value.toList
  | .date value => value.chars
  | .dateTime value => value.chars
  | .timestamp value => value.chars
  | .uuid value => value.chars

def display (scalar : Scalar) : String := String.ofList scalar.chars

/-- Ten characters: digits, with hyphens before the month and the day. -/
def isDateShape (text : List Char) : Bool :=
  match text with
  | [y₁, y₂, y₃, y₄, h₁, m₁, m₂, h₂, d₁, d₂] =>
    [y₁, y₂, y₃, y₄, m₁, m₂, d₁, d₂].all Char.isDigit && h₁ == '-' && h₂ == '-'
  | _ => false

/-- The date that a text of the shape of dates names. A text with a time never names a plain date. -/
def plainDate? (text : String) : Option Date :=
  if isDateShape text.toList then Date.ofText? text else none

/-- The scalar that a text names. -/
def ofText (text : String) : Scalar :=
  match Instant.ofText? text with
  | some instant => .timestamp instant
  | none =>
    match plainDate? text with
    | some day => .date day
    | none =>
      match DateTime.ofText? text with
      | some wall => .dateTime wall
      | none => .text text

/-- The scalar of a JSON number: an integer of 64 signed bits, and else the nearest float. -/
def ofNumber? : Json.Number → Option Scalar
  | .integer value _ _ =>
    if value < 9223372036854775808 then some (.int (Int64.ofInt value))
    else (Binary64.ofDecimal? false value.toNat 0).map .float
  | .real value _ => some (.float value)

/-- The scalar of a JSON value. Nothing, arrays and objects are no scalars. -/
def ofJson? : Json.Value → Option Scalar
  | .bool value => some (.bool value)
  | .number value => ofNumber? value
  | .string value => some (ofText value)
  | .null => none
  | .array _ => none
  | .object _ => none

end Paging.Scalar
