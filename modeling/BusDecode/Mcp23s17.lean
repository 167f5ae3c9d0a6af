import BusDecode.Annotation
import BusDecode.Bits
import BusDecode.Numeral
import BusDecode.Script.Drain
import BusDecode.Spi

/-!
# MCP23S17 I/O expander

In a transfer the first byte selects a device and a direction, the second a register, and the rest
are the values of that register and the ones after it: taken from MOSI when writing, from MISO when
reading.  The register names are those of the layout in which registers of the A and B pins
alternate.
-/

set_option autoImplicit false

namespace BusDecode

namespace Mcp23s17

/-! ## Registers -/

/-- Register names in the order of their addresses. -/
def registers : List String :=
  ["IODIRA", "IODIRB", "IPOLA", "IPOLB", "GPINTENA", "GPINTENB", "DEFVALA", "DEFVALB",
    "INTCONA", "INTCONB", "IOCON", "IOCON", "GPPUA", "GPPUB", "INTFA", "INTFB", "INTCAPA",
    "INTCAPB", "GPIOA", "GPIOB", "OLATA", "OLATB"]

def registerName (address : Nat) : Option String :=
  registers[address]?

/-- A register name without its A or B. -/
def pairName (name : String) : String :=
  match name.toList.getLast? with
  | some 'A' => String.ofList name.toList.dropLast
  | some 'B' => String.ofList name.toList.dropLast
  | _ => name

/-! ## Values -/

def single (name : String) (w : Spi.Word) : Annotation :=
  .field "value" w.start w.stop s!"{name}: {Numeral.hexByte w.value}"

/-- The values of an A and a B register as one number, A in the low byte. -/
def pair (name : String) (low high : Spi.Word) : Annotation :=
  .field "value" low.start high.stop
    s!"{pairName name}: {Numeral.hexWord (Bits.word low.value high.value)}"

/-- A value behind the last register. -/
def unknown (address : Nat) (w : Spi.Word) : Annotation :=
  .warning w.start w.stop s!"Unknown register {Numeral.hex 2 address}"

/-- Annotates the values of consecutive registers from `address` on, after those in `done` (latest
first).  When pairs are merged, an even register takes the value of the next one in, if there is
one.  The address goes on counting behind the last register. -/
def walkFrom (mergePairs : Bool) (address : Nat) (values : List Spi.Word)
    (done : List Annotation) : List Annotation :=
  match values with
  | [] => done.reverse
  | [w] =>
    match registerName address with
    | none => (unknown address w :: done).reverse
    | some name => (single name w :: done).reverse
  | low :: high :: rest =>
    match registerName address with
    | none => walkFrom mergePairs (address + 1) (high :: rest) (unknown address low :: done)
    | some name =>
      if mergePairs ∧ address % 2 = 0 then
        walkFrom mergePairs (address + 2) rest (pair name low high :: done)
      else walkFrom mergePairs (address + 1) (high :: rest) (single name low :: done)

/-- Annotates the values of consecutive registers from `address` on. -/
def walk (mergePairs : Bool) (address : Nat) (values : List Spi.Word) : List Annotation :=
  walkFrom mergePairs address values []

/-! ## Decoding -/

structure Config where
  /-- A and B registers as one 16-bit value -/
  mergePairs : Bool := false
  deriving DecidableEq, Repr

/-- A decoder; it remembers nothing from one packet to the next. -/
structure Decoder where
  name : String := "mcp23s17"
  config : Config := {}
  deriving DecidableEq, Repr

/-- What a decoder does with its input. -/
abbrev Handling (α : Type) : Type :=
  Script Decoder Annotation Halt α

/-- The lowest bit of the select byte is set for reading. -/
def isRead (select : Spi.Word) : Bool :=
  select.value &&& 1 = 1

def direction (select : Spi.Word) : String :=
  if isRead select then "read" else "write"

/-- The register values of a transfer: what follows select and address on the line they are on. -/
def valuesOf (select : Spi.Word) (mosi miso : List Spi.Word) : List Spi.Word :=
  (if isRead select then miso else mosi).drop 2

namespace Decoder

def putSelect (w : Spi.Word) : Handling Unit :=
  Script.emit fun _ => .field "select" w.start w.stop
    s!"Select {Numeral.hexByte (w.value >>> 1)} for {direction w}"

def putAddress (w : Spi.Word) : Handling Unit :=
  Script.emit fun _ => .field "addr" w.start w.stop s!"Address {Numeral.hexByte w.value}"

def tellValues (select address : Spi.Word) (count : Nat) : Handling Unit :=
  Script.note fun d => .told d.name .trace
    s!"{direction select} {count} bytes from {Numeral.hexByte address.value}"

/-- Takes a transfer, as far as it goes. -/
def transfer (mosi miso : List Spi.Word) : Handling Unit :=
  match mosi with
  | [] => return ()
  | [select] => putSelect select
  | select :: address :: _ => do
    putSelect select
    putAddress address
    let values := valuesOf select mosi miso
    tellValues select address values.length
    let mergePairs ← Script.read fun d => d.config.mergePairs
    Script.emitAll (walk mergePairs address.value.toNat values)

/-- Takes a packet; anything but a transfer is ignored. -/
def feed : Spi.Packet → Handling Unit
  | .transfer mosi miso => transfer mosi miso
  | _ => return ()

/-- Takes every packet of a source until it ends. -/
def decode {σ : Type} [Source σ Spi.Packet] : Script (Decoder × σ) Annotation Halt Unit :=
  Script.drain feed

end Decoder

end Mcp23s17

end BusDecode
