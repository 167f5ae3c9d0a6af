import BusDecode.Bits
import BusDecode.Numeral

/-!
# Pin vectors

Levels of up to sixteen lines at one sample number, line `n` in bit `n`.  Like a line sample, a
pin vector holds until the next one.
-/

set_option autoImplicit false

namespace BusDecode

/-- The levels of sixteen lines from a sample number on. -/
structure PinVector where
  time : Nat
  pins : UInt16
  deriving DecidableEq, Repr, Inhabited

namespace PinVector

/-- The vector whose line `n` has the `n`-th level of the list; lines past its end are low. -/
def ofLevels (levels : List Bool) (time : Nat) : PinVector :=
  ⟨time, UInt16.ofNat (Bits.value levels)⟩

/-- Level of one line. -/
def pin (v : PinVector) (line : Nat) : Bool :=
  v.pins.toNat.testBit line

/-- Pins with the level of one line replaced. -/
def setPin (pins : UInt16) (line : Nat) (level : Bool) : UInt16 :=
  if level then pins ||| (1 <<< UInt16.ofNat line) else pins &&& ~~~(1 <<< UInt16.ofNat line)

/-- One-line description; the pins are written in base two with at least four digits. -/
def describe (v : PinVector) : String :=
  s!"LogicSample[pins=0b{Numeral.binary 4 v.pins.toNat}, t={v.time}]"

end PinVector

end BusDecode
