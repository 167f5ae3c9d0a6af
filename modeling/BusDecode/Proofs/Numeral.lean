import BusDecode.Bits
import BusDecode.Numeral

/-!
# Hexadecimal digits

The digits of a number are those of its quotient by the base with one more behind
(`digits_mul_add`), so a word is written as its high and its low byte.
-/

set_option autoImplicit false

namespace BusDecode

namespace Numeral

/-- The last digit stands for the remainder; zeros in front go to the quotient. -/
theorem digits_mul_add {width q r : Nat} (hw : 0 < width) (hr : r < 16) :
    digits 16 (width + 1) (16 * q + r) = digits 16 width q ++ [r.digitChar.toUpper] := by
  rcases Nat.eq_zero_or_pos q with rfl | hq
  · obtain ⟨w, rfl⟩ : ∃ w, width = w + 1 := ⟨width - 1, by omega⟩
    simp [digits, List.leftpad, Nat.toDigits_of_lt_base hr, List.replicate_succ']
  · have hdigits : Nat.toDigits 16 (16 * q + r) = Nat.toDigits 16 q ++ [r.digitChar] := by
      rw [← Nat.toDigits_append_toDigits (by decide) hq hr, Nat.toDigits_of_lt_base hr]
    simp [digits, List.leftpad, hdigits]

theorem hexByte_eq (b : UInt8) :
    hexByte b = String.ofList
      [(b.toNat / 16).digitChar.toUpper, (b.toNat % 16).digitChar.toUpper] := by
  have hb : b.toNat < 256 := b.toNat_lt
  have hhigh : b.toNat / 16 < 16 := by omega
  have hsplit : b.toNat = 16 * (b.toNat / 16) + b.toNat % 16 := by omega
  conv => lhs; rw [hexByte, hex, hsplit]
  rw [digits_mul_add (by decide) (Nat.mod_lt _ (by decide))]
  simp [digits, List.leftpad, Nat.toDigits_of_lt_base hhigh]

theorem hexBytes_singleton (b : UInt8) : hexBytes [b] = hexByte b := by
  simp [hexBytes]

theorem word_toNat (low high : UInt8) :
    (Bits.word low high).toNat = low.toNat + 256 * high.toNat := by
  have hlow : low.toNat < 2 ^ 8 := low.toNat_lt
  have hhigh : high.toNat < 2 ^ 8 := high.toNat_lt
  have hshift : high.toNat <<< 8 % 2 ^ 16 = high.toNat <<< 8 := by
    rw [Nat.shiftLeft_eq]
    exact Nat.mod_eq_of_lt (by omega)
  have hword : (Bits.word low high).toNat = high.toNat <<< 8 ||| low.toNat := by
    rw [Bits.word, UInt16.toNat_or, UInt16.toNat_shiftLeft]
    change high.toNat <<< 8 % 2 ^ 16 ||| low.toNat = _
    rw [hshift]
  rw [hword, ← Nat.shiftLeft_add_eq_or_of_lt hlow, Nat.shiftLeft_eq]
  omega

/-- A word is written as its high byte before its low one. -/
theorem hexWord_word (low high : UInt8) :
    hexWord (Bits.word low high) = hexBytes [high, low] := by
  have hlow : low.toNat < 256 := low.toNat_lt
  have hsplit : low.toNat + 256 * high.toNat =
      16 * (16 * high.toNat + low.toNat / 16) + low.toNat % 16 := by omega
  have hdigits : digits 16 2 high.toNat =
      [(high.toNat / 16).digitChar.toUpper, (high.toNat % 16).digitChar.toUpper] :=
    String.ofList_inj.1 (hexByte_eq high)
  rw [hexWord, hex, word_toNat, hsplit, digits_mul_add (by decide) (Nat.mod_lt _ (by decide)),
    digits_mul_add (by decide) (by omega), hdigits]
  have hbytes : hexBytes [high, low] = hexByte high ++ hexByte low := by simp [hexBytes]
  rw [hbytes, hexByte_eq, hexByte_eq, ← String.ofList_append, List.append_assoc]
  rfl

end Numeral

end BusDecode
