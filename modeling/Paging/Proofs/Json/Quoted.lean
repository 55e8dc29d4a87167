import Paging.Json.Printer
import Paging.Json.Token
import Paging.Proofs.Text.Utf8

/-!
Strings in JSON. Scanning the bytes of a quoted text stops at the closing quote, with pieces that have
the bytes of the text itself.
-/

namespace Paging.Json

namespace Piece

theorem attach?_some (piece : Piece) (scanned : Option (List Piece × List UInt8)) :
    attach? (some piece) scanned = scanned.map fun (pieces, rest) => (piece :: pieces, rest) := by
  cases scanned <;> rfl

/-- What may stand raw between quotes. -/
def IsRaw (b : UInt8) : Prop := b ≠ 0x22 ∧ b ≠ 0x5C ∧ ¬b < 0x20

theorem scan?_raw {bytes rest tail : List UInt8} {pieces : List Piece} (hraw : ∀ b ∈ bytes, IsRaw b)
    (h : scan? rest = some (pieces, tail)) :
    scan? (bytes ++ rest) = some (bytes.map .byte ++ pieces, tail) := by
  induction bytes with
  | nil => exact h
  | cons b bytes ih =>
    obtain ⟨hquote, hbackslash, hcontrol⟩ := hraw b List.mem_cons_self
    have hrest := ih fun b hb => hraw b (List.mem_cons_of_mem _ hb)
    rw [List.cons_append, scan?.eq_def]
    simp only [if_neg hquote, if_neg hbackslash, if_neg hcontrol, attach?_some, hrest]
    rfl

theorem bytes?_raw (bytes : List UInt8) (pieces : List Piece) :
    bytes? (bytes.map .byte ++ pieces) = (bytes? pieces).map (bytes ++ ·) := by
  induction bytes with
  | nil => simp
  | cons b bytes ih =>
    rw [List.map_cons, List.cons_append, bytes?, ih, Option.map_map]
    rfl

theorem scan?_letter {letter b : UInt8} (rest : List UInt8) (hletter : letter ≠ 0x75)
    (h : escaped? letter = some b) :
    scan? (0x5C :: letter :: rest) =
      (scan? rest).map fun (pieces, tail) => (.byte b :: pieces, tail) := by
  rw [scan?.eq_def]
  simp only [if_neg (by decide : (0x5C : UInt8) ≠ 0x22), if_true, if_neg hletter, h, Option.map_some,
    attach?_some]

theorem unit?_control {n : Nat} (h : n < 0x20) :
    unit? 0x30 0x30 (asciiByte (hexDigit (n / 16))) (asciiByte (hexDigit (n % 16))) =
      some (.unit n) := by
  revert n
  decide

theorem scan?_unit {a b c d : UInt8} {piece : Piece} (rest : List UInt8)
    (h : unit? a b c d = some piece) :
    scan? (0x5C :: 0x75 :: a :: b :: c :: d :: rest) =
      (scan? rest).map fun (pieces, tail) => (piece :: pieces, tail) := by
  rw [scan?.eq_def]
  simp only [if_neg (by decide : (0x5C : UInt8) ≠ 0x22), if_true, h, attach?_some]

theorem bytes?_control {c : Char} (pieces : List Piece) (h : c.toNat < 0x20) :
    bytes? (.unit c.toNat :: pieces) = (bytes? pieces).map (String.utf8EncodeChar c ++ ·) := by
  have hhigh : isHighSurrogate c.toNat = false := decide_eq_false (by omega)
  have hlow : isLowSurrogate c.toNat = false := decide_eq_false (by omega)
  rw [bytes?.eq_def]
  simp only [hhigh, hlow, Char.ofNat_toNat]
  rfl

theorem isRaw_of_mem {c : Char} (hquote : c ≠ '"') (hbackslash : c ≠ '\\') (hcontrol : ¬c.toNat < 0x20) :
    ∀ b ∈ String.utf8EncodeChar c, IsRaw b := by
  have hne {d : Char} (hd : c ≠ d) : c.toNat ≠ d.toNat := fun heq => hd (Char.toNat_inj.mp heq)
  have hquote : c.toNat ≠ 0x22 := hne hquote
  have hbackslash : c.toNat ≠ 0x5C := hne hbackslash
  intro b hb
  have hvalue : b.toNat = c.toNat ∨ 128 ≤ b.toNat := by
    by_cases hascii : c.toNat < 128
    · rw [utf8EncodeChar_ascii hascii, List.mem_singleton] at hb
      exact Or.inl (hb ▸ toNat_asciiByte hascii)
    · exact Or.inr (le_of_mem_utf8EncodeChar (by omega) b hb)
  have hraw : b.toNat ≠ 0x22 ∧ b.toNat ≠ 0x5C ∧ ¬b.toNat < 0x20 := by omega
  exact ⟨fun heq => hraw.1 (heq ▸ rfl), fun heq => hraw.2.1 (heq ▸ rfl), hraw.2.2⟩

/-- A character that is written as a backslash and a letter is read from them. -/
theorem scan?_twoChars {c letter : Char} {rest tail bytes : List UInt8} {pieces : List Piece}
    (hascii : c.toNat < 128) (hletter : letter.toNat < 128) (hunit : asciiByte letter ≠ 0x75)
    (hescaped : escaped? (asciiByte letter) = some (asciiByte c))
    (hscan : scan? rest = some (pieces, tail)) (hbytes : bytes? pieces = some bytes) :
    ∃ more, scan? (utf8 ['\\', letter] ++ rest) = some (more, tail) ∧
      bytes? more = some (String.utf8EncodeChar c ++ bytes) := by
  have hwritten : utf8 ['\\', letter] = [0x5C, asciiByte letter] := by
    rw [utf8_cons, utf8_cons, utf8EncodeChar_ascii hletter]
    rfl
  refine ⟨.byte (asciiByte c) :: pieces, ?_, ?_⟩
  · rw [hwritten, List.cons_append, List.cons_append, scan?_letter _ hunit hescaped]
    simp [hscan]
  · rw [bytes?, hbytes, utf8EncodeChar_ascii hascii]
    rfl

/-- A control character is written as a unit of four digits. -/
theorem scan?_controlChar {c : Char} (hcontrol : c.toNat < 32) {rest tail bytes : List UInt8}
    {pieces : List Piece} (hscan : scan? rest = some (pieces, tail)) (hbytes : bytes? pieces = some bytes) :
    ∃ more,
      scan? (utf8 ['\\', 'u', '0', '0', hexDigit (c.toNat / 16), hexDigit (c.toNat % 16)] ++ rest) =
          some (more, tail) ∧
        bytes? more = some (String.utf8EncodeChar c ++ bytes) := by
  have hhigh : (hexDigit (c.toNat / 16)).toNat < 128 := by
    generalize c.toNat = n at hcontrol
    revert n
    decide
  have hlow : (hexDigit (c.toNat % 16)).toNat < 128 := by
    generalize c.toNat = n at hcontrol
    revert n
    decide
  have hwritten : utf8 ['\\', 'u', '0', '0', hexDigit (c.toNat / 16), hexDigit (c.toNat % 16)] =
      [0x5C, 0x75, 0x30, 0x30, asciiByte (hexDigit (c.toNat / 16)),
        asciiByte (hexDigit (c.toNat % 16))] := by
    simp only [utf8_cons, utf8_nil, utf8EncodeChar_ascii hhigh, utf8EncodeChar_ascii hlow]
    rfl
  refine ⟨.unit c.toNat :: pieces, ?_, ?_⟩
  · rw [hwritten]
    simp only [List.cons_append, List.nil_append, scan?_unit _ (unit?_control hcontrol), hscan,
      Option.map_some]
  · rw [bytes?_control _ hcontrol, hbytes]
    rfl

/-- One character of a string, whatever its written form. -/
theorem scan?_escapeChar (c : Char) {rest tail bytes : List UInt8} {pieces : List Piece}
    (hscan : scan? rest = some (pieces, tail)) (hbytes : bytes? pieces = some bytes) :
    ∃ more, scan? (utf8 (escapeChar c) ++ rest) = some (more, tail) ∧
      bytes? more = some (String.utf8EncodeChar c ++ bytes) := by
  fun_cases escapeChar c with
  | case1 h =>
    subst h
    exact scan?_twoChars (by decide) (by decide) (by decide) (by decide) hscan hbytes
  | case2 _ h =>
    subst h
    exact scan?_twoChars (by decide) (by decide) (by decide) (by decide) hscan hbytes
  | case3 _ _ _ h =>
    subst h
    exact scan?_twoChars (by decide) (by decide) (by decide) (by decide) hscan hbytes
  | case4 _ _ _ _ h =>
    subst h
    exact scan?_twoChars (by decide) (by decide) (by decide) (by decide) hscan hbytes
  | case5 _ _ _ _ _ h =>
    subst h
    exact scan?_twoChars (by decide) (by decide) (by decide) (by decide) hscan hbytes
  | case6 _ _ _ _ _ _ h =>
    obtain rfl : c = '\x08' := Char.toNat_inj.mp h
    exact scan?_twoChars (by decide) (by decide) (by decide) (by decide) hscan hbytes
  | case7 _ _ _ _ _ _ _ h =>
    obtain rfl : c = '\x0C' := Char.toNat_inj.mp h
    exact scan?_twoChars (by decide) (by decide) (by decide) (by decide) hscan hbytes
  | case8 _ _ hcontrol => exact scan?_controlChar hcontrol hscan hbytes
  | case9 hquote hbackslash hcontrol =>
    rw [utf8_cons, utf8_nil, List.append_nil]
    refine ⟨(String.utf8EncodeChar c).map .byte ++ pieces,
      scan?_raw (isRaw_of_mem hquote hbackslash hcontrol) hscan, ?_⟩
    rw [bytes?_raw, hbytes]
    rfl

theorem scan?_escaped (chars : List Char) (rest : List UInt8) :
    ∃ pieces, scan? (utf8 (chars.flatMap escapeChar) ++ 0x22 :: rest) = some (pieces, rest) ∧
      bytes? pieces = some (utf8 chars) := by
  induction chars with
  | nil => exact ⟨[], by simp [scan?.eq_def], rfl⟩
  | cons c chars ih =>
    obtain ⟨pieces, hscan, hbytes⟩ := ih
    rw [List.flatMap_cons, utf8_append, List.append_assoc]
    exact scan?_escapeChar c hscan hbytes

/-- A quoted text, after its opening quote, is read as that text. -/
theorem scan?_quote (text : String) (rest : List UInt8) :
    ∃ pieces, scan? (utf8 (text.toList.flatMap escapeChar ++ ['"']) ++ rest) = some (pieces, rest) ∧
      text? pieces = some text := by
  obtain ⟨pieces, hscan, hbytes⟩ := scan?_escaped text.toList rest
  refine ⟨pieces, ?_, ?_⟩
  · rw [utf8_append, List.append_assoc]
    exact hscan
  · rw [text?, hbytes]
    exact fromUTF8?_utf8 text

end Piece

end Paging.Json
