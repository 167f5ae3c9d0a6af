/-!
# Numbers from bits

A list of levels read as a binary number, least significant bit first: the order in which a
serial line sends a byte and in which the lines of a pin vector are numbered.
-/

set_option autoImplicit false

namespace BusDecode

namespace Bits

/-- The number whose bit `k` is element `k` of the list. -/
def value : List Bool → Nat
  | [] => 0
  | b :: bs => b.toNat + 2 * value bs

/-- A byte from its bits, least significant first. -/
def byte (bs : List Bool) : UInt8 :=
  UInt8.ofNat (value bs)

/-- A byte shifted up by one, with a new lowest bit. -/
def shiftIn (word : UInt8) (bit : Bool) : UInt8 :=
  (word <<< 1) ||| bit.toUInt8

/-- A 16-bit word from its low and its high byte. -/
def word (low high : UInt8) : UInt16 :=
  high.toUInt16 <<< 8 ||| low.toUInt16

/-- A 16-bit word with its low byte replaced. -/
def setLow (w : UInt16) (b : UInt8) : UInt16 :=
  (w &&& 0xFF00) ||| b.toUInt16

/-- A 16-bit word with its high byte replaced. -/
def setHigh (w : UInt16) (b : UInt8) : UInt16 :=
  (b.toUInt16 <<< 8) ||| (w &&& 0x00FF)

end Bits

end BusDecode
