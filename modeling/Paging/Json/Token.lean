import Paging.Json.Value
import Paging.Binary64.Rounding

/-!
The tokens of JSON text, scanned from its bytes. Scanning settles the grammar of literals and strings
only: a number out of range and a string that is no Unicode text are tokens without a value, because a
reader that skips them must not fail on them.
-/

namespace Paging.Json

namespace Number

/-- The number of a decimal numeral, where a finite float or an integer of 64 bits has its value. -/
def ofDecimal? (negative : Bool) (digits : Nat) (exponent : Int) : Option Number :=
  match Binary64.ofDecimal? negative digits exponent with
  | some value => if h : value.isFinite = true then some (.real value h) else none
  | none => none

/--
The number of an integer numeral. Negative zero and integers past 64 bits are floats.
-/
def ofInteger? (negative : Bool) (digits : Nat) : Option Number :=
  if negative then
    if h : 0 < digits ∧ digits ≤ 9223372036854775808 then some (.integer (-(digits : Int)) (by omega) (by omega))
    else ofDecimal? true digits 0
  else match ofNat? digits with
    | some number => some number
    | none => ofDecimal? false digits 0

def ofDigits (digits : List Char) : Nat := Nat.ofDigitChars 10 digits 0

/--
How many digits decide the value of a numeral, from the first that is not zero. No number halfway between
two floats needs more.
-/
def decisiveDigits : Nat := 768

/--
The digits of a numeral that decide its value, and the exponent that belongs to them. One digit `1`
stands for all that follow, zeros included, so a numeral of more digits is never halfway between floats.
-/
def decisive (digits : List Char) (exponent : Int) : List Char × Int :=
  let significant := digits.dropWhile (· == '0')
  if decisiveDigits < significant.length then
    (significant.take decisiveDigits ++ ['1'],
      exponent + (significant.length - (decisiveDigits + 1) : Nat))
  else (significant, exponent)

/-- The digits of a fraction without the zeros at its end. -/
def trimmed (fraction : List Char) : List Char :=
  (fraction.reverse.dropWhile (· == '0')).reverse

/-- The digits after a point, and what follows them. Without a point there are none. -/
def fraction? : List Char → Option (Option (List Char) × List Char)
  | '.' :: rest =>
    match rest.takeWhile Char.isDigit with
    | [] => none
    | digits => some (some digits, rest.dropWhile Char.isDigit)
  | rest => some (none, rest)

/-- The exponent that makes up the rest of a numeral. The end of the numeral is no exponent. -/
def exponent? : List Char → Option (Option Int)
  | [] => some none
  | mark :: rest =>
    if mark = 'e' ∨ mark = 'E' then
      let (negative, digits) := match rest with
        | '-' :: digits => (true, digits)
        | '+' :: digits => (false, digits)
        | digits => (false, digits)
      if digits ≠ [] ∧ digits.all Char.isDigit then
        some (some (if negative then -(ofDigits digits : Int) else ofDigits digits))
      else none
    else none

/--
Reads a whole numeral. The outer `none` is a fault of grammar, the inner one a magnitude past the
finite floats.
-/
def ofNumeral? (numeral : List Char) : Option (Option Number) :=
  let (negative, body) := match numeral with
    | '-' :: body => (true, body)
    | body => (false, body)
  let whole := body.takeWhile Char.isDigit
  if whole = [] ∨ (whole.head? = some '0' ∧ whole ≠ ['0']) then none
  else match fraction? (body.dropWhile Char.isDigit) with
    | none => none
    | some (fraction, rest) =>
      match fraction, exponent? rest with
      | _, none => none
      | none, some none => some (ofInteger? negative (ofDigits whole))
      | _, some exponent =>
        let decimals := trimmed (fraction.getD [])
        let (digits, exponent) := decisive (whole ++ decimals) (exponent.getD 0 - decimals.length)
        some (ofDecimal? negative (ofDigits digits) exponent)

end Number

/-- A part of a string: a byte of its text, or a UTF-16 unit written as an escape. -/
inductive Piece
  | byte (value : UInt8)
  | unit (value : Nat)
  deriving DecidableEq, Repr

namespace Piece

def hexValue? (b : UInt8) : Option Nat :=
  if 0x30 ≤ b ∧ b ≤ 0x39 then some (b.toNat - 0x30)
  else if 0x61 ≤ b ∧ b ≤ 0x66 then some (b.toNat - 0x61 + 10)
  else if 0x41 ≤ b ∧ b ≤ 0x46 then some (b.toNat - 0x41 + 10)
  else none

def unit? (a b c d : UInt8) : Option Piece := do
  let a ← hexValue? a
  let b ← hexValue? b
  let c ← hexValue? c
  let d ← hexValue? d
  return .unit (((a * 16 + b) * 16 + c) * 16 + d)

/-- The byte that a one-letter escape stands for. -/
def escaped? (letter : UInt8) : Option UInt8 :=
  if letter = 0x22 then some 0x22
  else if letter = 0x5C then some 0x5C
  else if letter = 0x2F then some 0x2F
  else if letter = 0x62 then some 0x08
  else if letter = 0x66 then some 0x0C
  else if letter = 0x6E then some 0x0A
  else if letter = 0x72 then some 0x0D
  else if letter = 0x74 then some 0x09
  else none

def attach? (piece : Option Piece) (scanned : Option (List Piece × List UInt8)) :
    Option (List Piece × List UInt8) :=
  match piece, scanned with
  | some piece, some (pieces, rest) => some (piece :: pieces, rest)
  | _, _ => none

/-- The pieces up to the closing quote, and what follows it. Raw control characters are refused. -/
def scan? : List UInt8 → Option (List Piece × List UInt8)
  | [] => none
  | b :: rest =>
    if b = 0x22 then some ([], rest)
    else if b = 0x5C then
      match rest with
      | [] => none
      | letter :: rest =>
        if letter = 0x75 then
          match rest with
          | a :: b :: c :: d :: rest => attach? (unit? a b c d) (scan? rest)
          | _ => none
        else attach? ((escaped? letter).map .byte) (scan? rest)
    else if b < 0x20 then none
    else attach? (some (.byte b)) (scan? rest)

/-- Units from `0xD800`, each the first half of a pair. -/
def isHighSurrogate (unit : Nat) : Bool := decide (0xD800 ≤ unit ∧ unit < 0xDC00)

/-- Units from `0xDC00`, each the second half of a pair. -/
def isLowSurrogate (unit : Nat) : Bool := decide (0xDC00 ≤ unit ∧ unit < 0xE000)

/--
The bytes of the pieces in UTF-8. A first half must be followed directly by a second half, and a second
half stands nowhere else.
-/
def bytes? : List Piece → Option (List UInt8)
  | [] => some []
  | .byte b :: rest => (bytes? rest).map (b :: ·)
  | .unit u :: rest =>
    if isHighSurrogate u then
      match rest with
      | .unit v :: rest =>
        if isLowSurrogate v then
          (bytes? rest).map
            (String.utf8EncodeChar (Char.ofNat (0x10000 + (u - 0xD800) * 0x400 + (v - 0xDC00))) ++ ·)
        else none
      | _ => none
    else if isLowSurrogate u then none
    else (bytes? rest).map (String.utf8EncodeChar (Char.ofNat u) ++ ·)

def text? (pieces : List Piece) : Option String :=
  (bytes? pieces).bind fun bytes => String.fromUTF8? bytes.toByteArray

theorem attach?_eq_some {piece : Option Piece} {scanned : Option (List Piece × List UInt8)}
    {pieces : List Piece} {rest : List UInt8} (h : attach? piece scanned = some (pieces, rest)) :
    ∃ first others, piece = some first ∧ scanned = some (others, rest) ∧
      pieces = first :: others := by
  unfold attach? at h
  split at h
  · rename_i first others tail
    simp only [Option.some.injEq, Prod.mk.injEq] at h
    exact ⟨first, others, rfl, by rw [h.2], h.1.symm⟩
  · simp at h

theorem scan?_length {bytes : List UInt8} {pieces : List Piece} {rest : List UInt8}
    (h : scan? bytes = some (pieces, rest)) : rest.length ≤ bytes.length := by
  fun_induction scan? bytes generalizing pieces rest with
  | case1 => simp at h
  | case2 => simp at h; simp [h]
  | case3 => simp at h
  | case4 a b c d tail _ ih =>
    obtain ⟨_, _, _, hs, _⟩ := attach?_eq_some h
    have := ih hs
    simp; omega
  | case5 => simp at h
  | case6 letter tail _ _ ih =>
    obtain ⟨_, _, _, hs, _⟩ := attach?_eq_some h
    have := ih hs
    simp; omega
  | case7 => simp at h
  | case8 b tail _ _ _ ih =>
    obtain ⟨_, _, _, hs, _⟩ := attach?_eq_some h
    have := ih hs
    simp; omega

end Piece

inductive Token
  | arrayStart
  | arrayEnd
  | objectStart
  | objectEnd
  | comma
  | colon
  | null
  | bool (value : Bool)
  | number (value : Option Number)
  | string (value : Option String)
  deriving DecidableEq, Repr

namespace Token

def isBlank (b : UInt8) : Bool := b == 0x20 || b == 0x09 || b == 0x0A || b == 0x0D

def isDigit (b : UInt8) : Bool := decide (0x30 ≤ b ∧ b ≤ 0x39)

/-- The bytes that numerals are written with. No two values of any kind can stand side by side. -/
def isNumeralByte (b : UInt8) : Bool :=
  isDigit b || b == 0x2D || b == 0x2B || b == 0x2E || b == 0x65 || b == 0x45

def ofByte? (b : UInt8) : Option Token :=
  if b = 0x5B then some .arrayStart
  else if b = 0x5D then some .arrayEnd
  else if b = 0x7B then some .objectStart
  else if b = 0x7D then some .objectEnd
  else if b = 0x2C then some .comma
  else if b = 0x3A then some .colon
  else none

/-- The words `null`, `true` and `false` at the start of the text, and what follows. -/
def word? : List UInt8 → Option (Token × List UInt8)
  | 0x6E :: 0x75 :: 0x6C :: 0x6C :: rest => some (.null, rest)
  | 0x74 :: 0x72 :: 0x75 :: 0x65 :: rest => some (.bool true, rest)
  | 0x66 :: 0x61 :: 0x6C :: 0x73 :: 0x65 :: rest => some (.bool false, rest)
  | _ => none

/-- The token that starts with `b`, if it is not blank, and what follows. -/
def next? (b : UInt8) (rest : List UInt8) : Option (Option Token × List UInt8) :=
  if isBlank b then some (none, rest)
  else if b = 0x22 then
    (Piece.scan? rest).map fun (pieces, rest) => (some (.string (Piece.text? pieces)), rest)
  else if isDigit b || b == 0x2D then
    let numeral := b :: rest.takeWhile isNumeralByte
    (Number.ofNumeral? (numeral.map fun b => Char.ofNat b.toNat)).map fun number =>
      (some (.number number), rest.dropWhile isNumeralByte)
  else match ofByte? b with
    | some token => some (some token, rest)
    | none => (word? (b :: rest)).map fun (token, rest) => (some token, rest)

theorem word?_length {bytes : List UInt8} {token : Token} {rest : List UInt8}
    (h : word? bytes = some (token, rest)) : rest.length < bytes.length := by
  unfold word? at h
  split at h <;> simp at h <;> (obtain ⟨_, rfl⟩ := h; simp; omega)

theorem next?_length {b : UInt8} {bytes rest : List UInt8} {token : Option Token}
    (h : next? b bytes = some (token, rest)) : rest.length ≤ bytes.length := by
  unfold next? at h
  split at h
  · simp at h; simp [h]
  split at h
  · simp only [Option.map_eq_some_iff] at h
    obtain ⟨⟨pieces, tail⟩, hs, heq⟩ := h
    simp at heq
    have := Piece.scan?_length hs
    simp [← heq.2]; omega
  split at h
  · simp only [Option.map_eq_some_iff] at h
    obtain ⟨number, _, heq⟩ := h
    simp at heq
    rw [← heq.2]
    exact (List.dropWhile_sublist _).length_le
  split at h
  · simp at h; simp [h]
  · simp only [Option.map_eq_some_iff] at h
    obtain ⟨⟨token', tail⟩, hw, heq⟩ := h
    simp at heq
    have := word?_length hw
    simp at this
    simp [← heq.2]; omega

/-- All tokens of a text, or `none` where some part of it is no token. -/
def scan? : List UInt8 → Option (List Token)
  | [] => some []
  | b :: bytes =>
    match h : next? b bytes with
    | none => none
    | some (token, rest) =>
      have := next?_length h
      (scan? rest).map (token.toList ++ ·)
termination_by bytes => bytes.length

end Token

end Paging.Json
