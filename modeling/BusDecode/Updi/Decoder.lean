import BusDecode.Binary64
import BusDecode.LineCursor

/-!
# State of a UPDI decoder

UPDI is a half-duplex serial line: a start bit, eight data bits from the least significant on, and
two stop bits.  The host opens every instruction with the byte `0x55`, whose alternating bits give
away the bit period.  This module holds what a decoder remembers from one command to the next.
-/

set_option autoImplicit false

namespace BusDecode

namespace Updi

/-- How a sync is looked for. -/
structure Config where
  /-- samples per second of the capture; decoding refuses to start without it -/
  samplerate : Option Nat := none
  /-- longest credible bit time in samples; an edge is awaited three times as long -/
  maxBitTime : Nat := 200
  /-- bit times measured on a sync byte -/
  syncIntervals : Nat := 8
  deriving DecidableEq, Repr

/-- Counts over the life of a decoder. -/
structure Stats where
  syncs : Nat := 0
  syncAbandoned : Nat := 0
  frameErrors : Nat := 0
  commands : Nat := 0
  deriving DecidableEq, Repr

/-- A UPDI decoder between two commands. -/
structure Decoder where
  name : String := "avr_updi"
  config : Config := {}
  cursor : LineCursor := {}
  /-- bit period in samples, as measured last; zero before the first measurement -/
  bitTime : Nat := 0
  /-- where the last sync began -/
  syncStart : Nat := 0
  stats : Stats := {}
  deriving DecidableEq, Repr

namespace Decoder

/-- The bit period, if one has been measured. -/
def samplesPerBit (d : Decoder) : Option Nat :=
  if d.bitTime = 0 then none else some d.bitTime

/-- Bits per second, if the sample rate is known and a bit period has been measured. -/
def baudRate (d : Decoder) : Option Float := do
  let rate ← d.config.samplerate
  let period ← d.samplesPerBit
  return Binary64.quotient rate period

/-- The same decoder for a capture at another sample rate. -/
def withSamplerate (d : Decoder) (hz : Nat) : Decoder :=
  { d with config.samplerate := some hz }

end Decoder

end Updi

end BusDecode
