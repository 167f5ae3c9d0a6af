/-!
# UPDI opcodes

The first byte after a sync names the instruction and packs its operand sizes or its pointer mode
into the low bits.
-/

set_option autoImplicit false

namespace BusDecode

namespace Updi

/-- The instructions of the UPDI. -/
inductive Opcode where
  | lds
  | ld
  | sts
  /-- store through the pointer, or the pointer itself -/
  | st
  | ldcs
  | repeats
  | stcs
  | key
  | readSib
  deriving DecidableEq, Repr

namespace Opcode

/-- The instruction a command byte names.  KEY and READSIB share their top three bits and are told
apart first; the rest of their family is unused. -/
def decode (cmd : UInt8) : Option Opcode :=
  if 0xE0 ≤ cmd ∧ cmd ≤ 0xE3 then some key else
  if cmd = 0xE5 then some readSib else
  match (cmd >>> 5).toNat with
  | 0 => some lds
  | 1 => some ld
  | 2 => some sts
  | 3 => some st
  | 4 => some ldcs
  | 5 => some repeats
  | 6 => some stcs
  | _ => none

def mnemonic : Opcode → String
  | lds => "LDS"
  | ld => "LD"
  | sts => "STS"
  | st => "ST"
  | ldcs => "LDCS"
  | repeats => "REPEAT"
  | stcs => "STCS"
  | key => "KEY"
  | readSib => "READSIB"

end Opcode

/-- Selector of the address size, and of the pointer mode: bits 2 and 3. -/
def addressSize (cmd : UInt8) : Nat :=
  ((cmd >>> 2) &&& 3).toNat

/-- Selector of the data size: bits 0 and 1. -/
def dataSize (cmd : UInt8) : Nat :=
  (cmd &&& 3).toNat

/-- How LD and ST use the pointer register. -/
inductive Pointer where
  /-- the location it points to -/
  | indirect
  /-- the location it points to, moving it on -/
  | increment
  /-- the register itself -/
  | register
  deriving DecidableEq, Repr

namespace Pointer

/-- The pointer mode of a command byte; mode 3 is reserved. -/
def decode (cmd : UInt8) : Option Pointer :=
  match addressSize cmd with
  | 0 => some indirect
  | 1 => some increment
  | 2 => some register
  | _ => none

def text : Pointer → String
  | indirect => "[P]"
  | increment => "[P+]"
  | register => "P"

end Pointer

end Updi

end BusDecode
