/-!
# Programming commands

The commands that LOAD COMMAND selects in high-voltage serial programming, with their codes.
-/

set_option autoImplicit false

namespace BusDecode

namespace Hvsp

/-- What the device is told to program or read. -/
inductive Command where
  | chipErase
  | writeFuse
  | writeLock
  | writeFlash
  | writeEeprom
  /-- also reads the oscillator calibration -/
  | readSignature
  /-- also reads the lock bits -/
  | readFuse
  | readFlash
  | readEeprom
  deriving DecidableEq, Repr

namespace Command

/-- The byte that selects a command. -/
def code : Command → UInt8
  | chipErase => 0x80
  | writeFuse => 0x40
  | writeLock => 0x20
  | writeFlash => 0x10
  | writeEeprom => 0x11
  | readSignature => 0x08
  | readFuse => 0x04
  | readFlash => 0x02
  | readEeprom => 0x03

/-- All commands. -/
def all : List Command :=
  [chipErase, writeFuse, writeLock, writeFlash, writeEeprom, readSignature, readFuse, readFlash,
    readEeprom]

/-- The command that a byte selects. -/
def ofCode (code : UInt8) : Option Command :=
  all.find? fun c => c.code = code

/-- Short name of a command. -/
def mnemonic : Command → String
  | chipErase => "CE"
  | writeFuse => "WFUSE"
  | writeLock => "WLOCK"
  | writeFlash => "WFLASH"
  | writeEeprom => "WEEP"
  | readSignature => "RSIG"
  | readFuse => "RFUSE"
  | readFlash => "RFLASH"
  | readEeprom => "REEP"

/-- Codes are distinct, so every command is found again by its code. -/
theorem ofCode_code (c : Command) : ofCode c.code = some c := by
  cases c <;> decide

end Command

end Hvsp

end BusDecode
