/-!
# Numerals

Text of natural numbers in a given base, with upper-case digits and zeros in front up to a least
width.  A number that needs more digits than the width is written in full, never cut.
-/

set_option autoImplicit false

namespace BusDecode

namespace Numeral

/-- Digits of `n`, most significant first, zeros in front up to `width` digits. -/
def digits (base width n : Nat) : List Char :=
  ((Nat.toDigits base n).map Char.toUpper).leftpad width '0'

/-- Base sixteen, at least `width` digits. -/
def hex (width n : Nat) : String :=
  String.ofList (digits 16 width n)

/-- Base two, at least `width` digits. -/
def binary (width n : Nat) : String :=
  String.ofList (digits 2 width n)

/-- A byte as two hexadecimal digits. -/
def hexByte (b : UInt8) : String :=
  hex 2 b.toNat

/-- A 16-bit word as four hexadecimal digits. -/
def hexWord (w : UInt16) : String :=
  hex 4 w.toNat

/-- Bytes in order, two hexadecimal digits each, nothing between them. -/
def hexBytes (bs : List UInt8) : String :=
  String.join (bs.map hexByte)

end Numeral

end BusDecode
