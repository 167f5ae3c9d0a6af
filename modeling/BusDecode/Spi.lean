/-!
# SPI traffic

Words and packets as a framing layer hands them to a register decoder.
-/

set_option autoImplicit false

namespace BusDecode

namespace Spi

/-- One byte on a data line and the range of sample numbers it was clocked in. -/
structure Word where
  value : UInt8
  start : Nat
  stop : Nat
  deriving DecidableEq, Repr, Inhabited

/-- What a framing layer reports. -/
inductive Packet where
  /-- all words exchanged while chip select was asserted -/
  | transfer (mosi miso : List Word)
  /-- a single word, and what came back with it -/
  | data (mosi : Word) (miso : Option Word)
  /-- chip select was asserted or released -/
  | chipSelect (active : Bool) (start stop : Nat)
  deriving DecidableEq, Repr, Inhabited

end Spi

end BusDecode
