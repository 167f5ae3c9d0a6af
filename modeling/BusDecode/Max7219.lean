import BusDecode.Annotation
import BusDecode.Numeral
import BusDecode.Script.Drain
import BusDecode.Spi

/-!
# MAX7219 display driver

A write is two words while chip select is asserted: a register address and its value.  Addresses 1
to 8 are the digits.  Fewer or more words are reported when chip select is released.
-/

set_option autoImplicit false

namespace BusDecode

namespace Max7219

/-! ## Registers -/

/-- Brightness: the low four bits of the value. -/
def intensity (value : UInt8) : String :=
  match (value &&& 0x0F).toNat with
  | 0 => "min"
  | 15 => "max"
  | level => toString level

/-- Name of a control register and what a value means to it. -/
def controlRegister (address value : UInt8) : Option (String × String) :=
  match address.toNat with
  | 0x00 => some ("No-op", "")
  | 0x09 => some ("Decode", s!"0b{Numeral.binary 8 value.toNat}")
  | 0x0A => some ("Intensity", intensity value)
  | 0x0B => some ("Scan limit", toString (value.toNat + 1))
  | 0x0C => some ("Shutdown", if value = 0 then "on" else "off")
  | 0x0F => some ("Display test", if value = 0 then "off" else "on")
  | _ => none

/-- Annotation of a write of one word to the register that another names. -/
def write (address value : Spi.Word) : Annotation :=
  if 1 ≤ address.value ∧ address.value ≤ 8 then
    .field "digit" address.start value.stop
      s!"Digit {address.value.toNat}: {Numeral.hexByte value.value}"
  else
    match controlRegister address.value value.value with
    | some (name, meaning) => .field "register" address.start value.stop s!"{name}: {meaning}"
    | none =>
      .warning address.start value.stop s!"Unknown register {Numeral.hexByte address.value}"

/-- What is wrong with a window of so many words.  None at all is a glitch of chip select and not
worth a warning. -/
def lengthFault (words : Nat) : Option String :=
  if words = 1 then some "Short write" else
  if 2 < words then some "Overlong write" else none

/-! ## Decoding -/

/-- A decoder between two packets. -/
structure Decoder where
  name : String := "max7219"
  selected : Bool := false
  /-- where chip select was asserted last -/
  windowStart : Nat := 0
  /-- words since then -/
  words : Nat := 0
  /-- the first of them -/
  address : Option Spi.Word := none
  deriving DecidableEq, Repr

/-- What a decoder does with its input. -/
abbrev Handling (α : Type) : Type :=
  Script Decoder Annotation Halt α

namespace Decoder

/-- Latches the first word of a window and annotates the second one. -/
def latchOrWrite (w : Spi.Word) : Handling Unit := do
  let seen ← Script.read fun d => (d.words, d.address)
  match seen with
  | (0, _) => Script.modify fun d => { d with address := some w }
  | (1, some address) => Script.emit fun _ => write address w
  | _ => return ()

/-- Takes a word; outside a window it is ignored.  It counts only once its annotation is out. -/
def data (w : Spi.Word) : Handling Unit := do
  let selected ← Script.read Decoder.selected
  Script.onlyIf selected do
    latchOrWrite w
    Script.modify fun d => { d with words := d.words + 1 }

/-- Warns of a window with too few or too many words. -/
def checkLength (stop : Nat) : Handling Unit := do
  let words ← Script.read Decoder.words
  match lengthFault words with
  | none => return ()
  | some fault => do
    Script.note fun d => .told d.name .debug s!"{fault} ({d.words} words)"
    Script.emit fun d => .warning d.windowStart stop fault

/-- Opens a window, or closes one and checks its length. -/
def chipSelect (active : Bool) (start stop : Nat) : Handling Unit :=
  if active then
    Script.modify fun d =>
      { d with selected := true, words := 0, address := none, windowStart := start }
  else do
    Script.modify fun d => { d with selected := false }
    checkLength stop

/-- Takes a packet; whole transfers are ignored. -/
def feed : Spi.Packet → Handling Unit
  | .data mosi _ => data mosi
  | .chipSelect active start stop => chipSelect active start stop
  | .transfer _ _ => return ()

/-- Takes every packet of a source until it ends. -/
def decode {σ : Type} [Source σ Spi.Packet] : Script (Decoder × σ) Annotation Halt Unit :=
  Script.drain feed

end Decoder

end Max7219

end BusDecode
