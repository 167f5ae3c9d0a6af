/-!
# Binary floating point numbers

Quotients of 64-bit integers in double precision, and the exact rounding of such a number to a
whole one, decided on its mantissa and exponent.
-/

set_option autoImplicit false

namespace BusDecode

namespace Binary64

/-- Both numbers are rounded to double precision first, then their quotient is. -/
def quotient (num den : Nat) : Float :=
  (UInt64.ofNat num).toFloat / (UInt64.ofNat den).toFloat

/-- The whole number nearest to a quotient; a half goes to the even neighbour. -/
def roundDiv (num den : Nat) : Nat :=
  let q := num / den
  let twice := 2 * (num % den)
  if twice < den ∨ (twice = den ∧ q % 2 = 0) then q else q + 1

/-- The whole number nearest to a finite non-negative number; a half goes to the even neighbour. -/
def nearest (x : Float) : Nat :=
  let exponent := ((x.toBits >>> 52) &&& 0x7FF).toNat
  let fraction := (x.toBits &&& 0xFFFFFFFFFFFFF).toNat
  if exponent = 0 then roundDiv fraction (1 <<< 1074) else
  let mantissa := fraction + (1 <<< 52)
  if 1075 ≤ exponent then mantissa <<< (exponent - 1075)
  else roundDiv mantissa (1 <<< (1075 - exponent))

end Binary64

end BusDecode
