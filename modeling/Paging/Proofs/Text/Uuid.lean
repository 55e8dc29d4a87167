import Mathlib.Tactic.Ring
import Paging.Uuid

/-!
Reading the hyphenated form of an identifier gives the identifier back.
-/

namespace Paging.Uuid

theorem hexValue?_digitChar {digit : Nat} (h : digit < 16) :
    hexValue? (Nat.digitChar digit) = some digit := by
  revert digit
  decide

theorem hexNumber?_append_digit (value digit : Nat) (digits : List Char) (h : digit < 16) :
    hexNumber? value (digits ++ [Nat.digitChar digit]) =
      (hexNumber? value digits).map (· * 16 + digit) := by
  induction digits generalizing value with
  | nil => simp [hexNumber?, hexValue?_digitChar h]
  | cons c rest ih =>
    simp only [List.cons_append, hexNumber?]
    cases hexValue? c with
    | none => rfl
    | some first => exact ih _

theorem hexNumber?_hexDigits (count value : Nat) :
    hexNumber? 0 (hexDigits count value) = some (value % 16 ^ count) := by
  induction count generalizing value with
  | zero => simp [hexDigits, hexNumber?, Nat.mod_one]
  | succ count ih =>
    rw [hexDigits, hexNumber?_append_digit _ _ _ (Nat.mod_lt _ (by decide)), ih]
    simp only [Option.map_some, Option.some.injEq]
    rw [pow_succ', Nat.mod_mul]
    ring

theorem length_hexDigits (count value : Nat) : (hexDigits count value).length = count := by
  induction count generalizing value with
  | zero => rfl
  | succ count ih => rw [hexDigits, List.length_append, ih, List.length_singleton]

theorem ofHex?_hexDigits (uuid : Uuid) : ofHex? (hexDigits 32 uuid.bits.toNat) = some uuid := by
  have hlt : uuid.bits.toNat < 16 ^ 32 := uuid.bits.isLt
  rw [ofHex?, if_pos (length_hexDigits _ _), hexNumber?_hexDigits, Nat.mod_eq_of_lt hlt]
  simp only [Option.map_some, BitVec.ofNat_toNat, BitVec.setWidth_eq]

theorem length_hyphenate (sizes : List Nat) (digits : List Char) :
    (hyphenate sizes digits).length = digits.length + sizes.length := by
  induction sizes generalizing digits with
  | nil => rfl
  | cons size sizes ih =>
    simp only [hyphenate, List.length_cons, List.length_append, ih, List.length_take,
      List.length_drop]
    omega

theorem unhyphenate?_hyphenate (sizes : List Nat) (digits : List Char)
    (h : digits.length = sizes.sum) : unhyphenate? sizes (hyphenate sizes digits) = some digits := by
  induction sizes generalizing digits with
  | nil =>
    rw [List.sum_nil, List.length_eq_zero_iff] at h
    rw [h]
    rfl
  | cons size sizes ih =>
    rw [List.sum_cons] at h
    have hsize : (digits.take size).length = size := by rw [List.length_take]; omega
    have hrest : (digits.drop size).length = sizes.sum := by rw [List.length_drop]; omega
    rw [hyphenate, unhyphenate?, List.drop_left' hsize, List.take_left' hsize, ih _ hrest,
      Option.map_some, List.take_append_drop]

/-- The text of an identifier names it. -/
theorem ofChars?_chars (uuid : Uuid) : ofChars? uuid.chars = some uuid := by
  have hdigits := length_hexDigits 32 uuid.bits.toNat
  have hfirst : ((hexDigits 32 uuid.bits.toNat).take 8).length = 8 := by
    rw [List.length_take, hdigits]
    rfl
  have hrest : ((hexDigits 32 uuid.bits.toNat).drop 8).length = laterGroups.sum := by
    rw [List.length_drop, hdigits]
    rfl
  have hlength : uuid.chars.length = 36 := by
    rw [chars, List.length_append, hfirst, length_hyphenate, hrest]
    rfl
  have hread : ofHyphenated? uuid.chars = some uuid := by
    rw [ofHyphenated?, chars, List.drop_left' hfirst, List.take_left' hfirst,
      unhyphenate?_hyphenate _ _ hrest, Option.bind_some, List.take_append_drop, ofHex?_hexDigits]
  rw [ofChars?, if_neg (by omega), if_pos hlength, hread]

end Paging.Uuid
