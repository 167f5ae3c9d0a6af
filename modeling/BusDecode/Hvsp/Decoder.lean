import BusDecode.Annotation
import BusDecode.Hvsp.Operation
import BusDecode.PinVector
import BusDecode.Script.Drain

/-!
# Decoding high-voltage serial programming

The clock SCI moves three data lines.  SII (instructions) and SDI (data) are taken at its rising
edges, SDO at its falling ones.  A frame is a number of clock positions: a start position, eight
data bits from the most significant on, and a trailer.  The instruction in SII and SDI is
interpreted at the falling edge of the last position.
-/

set_option autoImplicit false

namespace BusDecode

namespace Hvsp

/-! ## Lines -/

/-- Pins of the lines. -/
def sci : Nat := 0

def sii : Nat := 1

def sdi : Nat := 2

def sdo : Nat := 3

/-- Whether a clock position carries a data bit. -/
def isDataBit (position : Nat) : Bool :=
  1 ≤ position && position ≤ 8

/-- A control line on SII. -/
structure ControlLine where
  name : String
  /-- asserted when low -/
  activeLow : Bool := false
  deriving DecidableEq, Repr

/-- The control lines at clock positions 2 to 8. -/
def controlLines : List ControlLine :=
  [⟨"XA1", false⟩, ⟨"XA0", false⟩, ⟨"BS1", false⟩, ⟨"WR", true⟩, ⟨"OE", true⟩, ⟨"BS2", false⟩,
    ⟨"PAGEL", false⟩]

/-- The control line at a clock position, if it carries one. -/
def controlLine? (position : Nat) : Option ControlLine :=
  if position < 2 then none else controlLines[position - 2]?

/-- The name of a control line that is asserted, a blank for one that is not. -/
def ControlLine.text (line : ControlLine) (level : Bool) : String :=
  if level != line.activeLow then line.name else " "

/-! ## State -/

structure Config where
  /-- clock positions in a frame -/
  framePositions : Nat := 11
  deriving DecidableEq, Repr

/-- A decoder between two pin vectors. -/
structure Decoder where
  name : String := "avr_hvsp"
  config : Config := {}
  /-- the pins seen last -/
  pins : Option UInt16 := none
  /-- the clock level seen last -/
  clock : Option Bool := none
  /-- clock position in the frame; none before the first rising edge -/
  position : Option Nat := none
  /-- levels taken at the last edges of the clock -/
  siiLevel : Bool := false
  sdiLevel : Bool := false
  sdoLevel : Bool := false
  /-- times of the last rising and the last falling edge -/
  riseTime : Option Nat := none
  fallTime : Option Nat := none
  frameStart : Nat := 0
  inputStart : Nat := 0
  outputStart : Nat := 0
  siiWord : UInt8 := 0
  sdiWord : UInt8 := 0
  sdoWord : UInt8 := 0
  context : Context := {}
  /-- instructions interpreted so far, with or without a fault -/
  instructions : Nat := 0
  deriving DecidableEq, Repr

/-- What a decoder does with its input. -/
abbrev Handling (ε α : Type) : Type :=
  Script Decoder Annotation ε α

namespace Decoder

variable {ε : Type}

/-- The clock position after another rising edge. -/
def nextPosition (d : Decoder) : Nat :=
  match d.position with
  | some n => if n + 1 < d.config.framePositions then n + 1 else 0
  | none => 0

def isLast (d : Decoder) (position : Nat) : Bool :=
  position + 1 = d.config.framePositions

/-! ## Annotating -/

def putBit (row : String) (start stop : Nat) (level : Decoder → Bool) : Handling ε Unit :=
  Script.emit fun d => ⟨.bit, row, start, stop, [if level d then "1" else "0"]⟩

def putWord (row : String) (start : Decoder → Nat) (stop : Nat) (word : Decoder → UInt8) :
    Handling ε Unit :=
  Script.emit fun d => ⟨.byte, row, start d, stop, [Numeral.hexByte (word d)]⟩

/-- Annotates the control line of a position that carries one. -/
def putControl (position start stop : Nat) : Handling ε Unit :=
  match controlLine? position with
  | some line => Script.emit fun d => ⟨.bit, "sii-bits", start, stop, [line.text d.siiLevel]⟩
  | none => return ()

/-! ## Instructions -/

/-- Reports a fault, as far as it is worth an entry in the journal. -/
def tellFault (fault : Fault) : Handling ε Unit :=
  match fault with
  | .strobes _ =>
    Script.note fun d =>
      .told d.name .debug s!"{fault.message} (SII {Numeral.hexByte d.siiWord})"
  | .unknownCommand code =>
    Script.note fun d => .told d.name .debug s!"Unknown command {Numeral.hexByte code}"
  | _ => return ()

/-- Interprets the words of a frame and annotates the instruction over the whole frame. -/
def interpretFrame (start stop : Nat) : Handling ε Unit := do
  Script.modify fun d => { d with instructions := d.instructions + 1 }
  let words ← Script.read fun d => (d.siiWord, d.sdiWord)
  match Operation.interpret words.1 words.2 with
  | .ok operation =>
    Script.modify fun d => { d with context := d.context.apply operation }
    Script.note fun d => .told d.name .trace operation.text
    Script.emit fun _ => ⟨.command, "instr", start, stop, [operation.text]⟩
  | .error fault =>
    tellFault fault
    Script.modify fun d => { d with context := d.context.applyFault fault }
    Script.emit fun _ => .warning start stop fault.message

/-! ## Clock edges -/

/-- Shifts the level of SDO taken at the last falling edge into its word.  The bit spans the clock
period that ends at this rising edge. -/
def outputBit (position start now : Nat) : Handling ε Unit := do
  putBit "sdo-bits" start now sdoLevel
  Script.modify fun d =>
    if position = 1 then { d with outputStart := start, sdoWord := 0 } else d
  Script.modify fun d => { d with sdoWord := Bits.shiftIn d.sdoWord d.sdoLevel }
  Script.onlyIf (position = 8) do
    Script.note fun d => ⟨.trace, s!"SDO word {Numeral.hexByte d.sdoWord}"⟩
    putWord "sdo" outputStart now sdoWord

/-- A rising edge of the clock, at the position it opens. -/
def rise (v : PinVector) (position : Nat) : Handling ε Unit := do
  let start ← Script.read fun d => d.riseTime.getD v.time
  Script.modify fun d => { d with
    siiLevel := v.pin sii
    sdiLevel := v.pin sdi
    riseTime := some v.time
    frameStart := if position = 0 then v.time else d.frameStart }
  Script.onlyIf (isDataBit position) (outputBit position start v.time)

/-- Annotates the levels of SII and SDI taken at the last rising edge and shifts them into their
words.  The bits span the clock period that ends at this falling edge. -/
def inputBits (position start now : Nat) : Handling ε Unit := do
  putControl position start now
  putBit "sdi-bits" start now sdiLevel
  Script.modify fun d =>
    if position = 1 then { d with inputStart := start, siiWord := 0, sdiWord := 0 } else d
  Script.modify fun d => { d with
    siiWord := Bits.shiftIn d.siiWord d.siiLevel
    sdiWord := Bits.shiftIn d.sdiWord d.sdiLevel }
  Script.onlyIf (position = 8) do
    Script.note fun d => ⟨.trace,
      s!"SII word {Numeral.hexByte d.siiWord}, SDI word {Numeral.hexByte d.sdiWord}"⟩
    putWord "sii" inputStart now siiWord
    putWord "sdi" inputStart now sdiWord

/-- A falling edge of the clock within a position: the last one of a frame interprets it. -/
def fallAt (now start position : Nat) : Handling ε Unit := do
  let frame ← Script.read fun d => (d.isLast position, d.frameStart)
  Script.onlyIf frame.1 (interpretFrame frame.2 now)
  Script.onlyIf (isDataBit position) (inputBits position start now)

/-- A falling edge of the clock; before the first rising edge there is no position to end. -/
def fall (v : PinVector) : Handling ε Unit := do
  let start ← Script.read fun d => d.fallTime.getD v.time
  Script.modify fun d => { d with sdoLevel := v.pin sdo, fallTime := some v.time }
  let position ← Script.read Decoder.position
  match position with
  | none => return ()
  | some position => fallAt v.time start position

/-- An edge of the clock.  A rising one opens the next position of the frame. -/
def clockEdge (v : PinVector) : Handling ε Unit :=
  if v.pin sci then do
    let position ← Script.read nextPosition
    Script.modify fun d => { d with position := some position }
    rise v position
  else fall v

/-! ## Pin vectors -/

/-- Takes a pin vector.  Only a change of the clock moves the decoder on: a repeated vector, the
first one, and a change of the other lines alone leave everything else as it was. -/
def feed (v : PinVector) : Handling ε Unit := do
  let before ← Script.read fun d => (d.pins, d.clock)
  Script.onlyIf (before.1 ≠ some v.pins) do
    Script.modify fun d => { d with pins := some v.pins, clock := some (v.pin sci) }
    Script.onlyIf (before.2 = some (!v.pin sci)) (clockEdge v)

/-- Takes every pin vector of a source until it ends. -/
def decode {σ : Type} [Source σ PinVector] : Script (Decoder × σ) Annotation Halt Unit :=
  Script.drain feed

end Decoder

end Hvsp

end BusDecode
