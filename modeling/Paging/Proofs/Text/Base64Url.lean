import Paging.Base64Url

/-!
Decoding undoes encoding in base64. Three bytes are one number in four sextets, and the one or two bytes at
the end of a list are such a number with zeros at its end, which decoding asks for.
-/

namespace Paging.Base64Url

theorem sextet?_symbol {sextet : Nat} (h : sextet < 64) : sextet? (symbol sextet) = some sextet := by
  revert sextet
  decide

theorem ofNat_eq_of_mod {n : Nat} (byte : UInt8) (h : n % 256 = byte.toNat) :
    UInt8.ofNat n = byte := by
  apply UInt8.toNat_inj.mp
  rw [UInt8.toNat_ofNat']
  exact h

theorem decode?_encode (bytes : List UInt8) : decode? (encode bytes) = some bytes := by
  fun_induction encode bytes with
  | case1 a b c rest word ih =>
    have ha := a.toNat_lt
    have hb := b.toNat_lt
    have hc := c.toNat_lt
    have hword : word = (a.toNat * 256 + b.toNat) * 256 + c.toNat := rfl
    have hjoin : ((word / 64 / 64 / 64 * 64 + word / 64 / 64 % 64) * 64 + word / 64 % 64) * 64 +
        word % 64 = word := by omega
    simp only [decode?, ih]
    rw [sextet?_symbol (by omega), sextet?_symbol (by omega), sextet?_symbol (by omega),
      sextet?_symbol (by omega)]
    simp only [hjoin]
    rw [ofNat_eq_of_mod a (by omega), ofNat_eq_of_mod b (by omega),
      ofNat_eq_of_mod c (by omega)]
  | case2 a b word =>
    have ha := a.toNat_lt
    have hb := b.toNat_lt
    have hword : word = (a.toNat * 256 + b.toNat) * 4 := rfl
    have hjoin : (word / 64 / 64 * 64 + word / 64 % 64) * 64 + word % 64 = word := by omega
    simp only [decode?]
    rw [sextet?_symbol (by omega), sextet?_symbol (by omega), sextet?_symbol (by omega)]
    simp only [hjoin]
    rw [if_pos (by omega), ofNat_eq_of_mod a (by omega),
      ofNat_eq_of_mod b (by omega)]
  | case3 a word =>
    have ha := a.toNat_lt
    have hword : word = a.toNat * 16 := rfl
    have hjoin : word / 64 * 64 + word % 64 = word := by omega
    simp only [decode?]
    rw [sextet?_symbol (by omega), sextet?_symbol (by omega)]
    simp only [hjoin]
    rw [if_pos (by omega), ofNat_eq_of_mod a (by omega)]
  | case4 => rfl

end Paging.Base64Url
