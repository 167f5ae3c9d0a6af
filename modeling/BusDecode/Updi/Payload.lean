import BusDecode.Updi.Opcode
import BusDecode.Updi.Session
import BusDecode.Updi.SystemInfo

/-!
# Payloads of UPDI commands

What follows an opcode: addresses and data in the sizes it selects, acknowledgements, keys and the
system information block.  A command is annotated once its payload is complete.  Inside a REPEAT
only the first round has a command start; the further rounds of LD and ST are annotated as
continuations.
-/

set_option autoImplicit false

namespace BusDecode

namespace Updi

/-- A value of one or two bytes and how it is written. -/
structure Value where
  value : UInt16
  text : String
  deriving DecidableEq, Repr

namespace Reception

variable {σ ε : Type}

/-! ## Annotating commands -/

def putOpcode (name : String) : Reception σ ε Unit :=
  putField "updi-opcode" Session.byteStart [s!"Opcode: {name}", name]

/-- Counts and annotates a complete command, from its start or, lacking one, from its last value. -/
def putCommand (name : String) (operands : String) : Reception σ ε Unit := do
  Script.modify (Session.count fun c => { c with commands := c.commands + 1 })
  Script.emit fun s =>
    ⟨.command, "updi", s.commandStart.getD s.valueStart, s.stop, [s!"{name} {operands}", name]⟩

/-- Annotates a further round of a repeated command; it counts as no command of its own. -/
def putContinuation (texts : List String) : Reception σ ε Unit :=
  Script.emit fun s => ⟨.command, "updi", s.valueStart, s.stop, texts⟩

/-- Annotates a load or store through the pointer: the first round as a command, written in full,
any further one as a continuation. -/
def putRound (name operands again data : String) : Reception σ ε Unit := do
  let start ← Script.read Session.commandStart
  match start with
  | some _ => putCommand name operands
  | none => putContinuation [again, data]

def unknownOpcode (cmd : UInt8) : Reception σ ε Unit := do
  tell .debug fun _ => s!"Unknown opcode {Numeral.hexByte cmd}"
  putOpcode "??"
  putWarning Session.byteStart s!"Unknown opcode {Numeral.hexByte cmd}"

/-! ## Reading operands -/

variable [Source σ Sample]

/-- Marks the byte read last as the beginning of a value. -/
def markValue : Reception σ ε Unit :=
  Script.modify fun s => { s with valueStart := s.byteStart }

/-- Reads a byte that is a value of its own. -/
def readSingle : Reception σ Interrupt Value := do
  let value ← readByte
  markValue
  return ⟨value.toUInt16, Numeral.hexByte value⟩

/-- Reads two bytes that make one value, the low one first. -/
def readPair : Reception σ Interrupt Value := do
  let low ← readByte
  markValue
  let high ← readByte
  let value := Bits.word low high
  return ⟨value, Numeral.hexWord value⟩

/-- Reads a value of the selected size: 0 for one byte, 1 for two. -/
def readSized (size : Nat) (label : String) : Reception σ Interrupt Value :=
  match size with
  | 0 => readSingle
  | 1 => readPair
  | selector => Script.fail (.halt (.undecodable (.unsupportedWidth label selector)))

def readValue (size : Nat) (row label : String) : Reception σ Interrupt Value := do
  let value ← readSized size label
  putField row Session.valueStart [s!"{label}: {value.text}", value.text]
  return value

def readAddress (cmd : UInt8) : Reception σ Interrupt Value :=
  readValue (addressSize cmd) "updi-addr" "Addr"

def readData (size : Nat) : Reception σ Interrupt Value :=
  readValue size "updi-data" "Data"

/-- The byte with which a device acknowledges. -/
def ack : UInt8 := 0x40

/-- Reads an acknowledgement and warns if it is none. -/
def readAck : Reception σ Interrupt Unit := do
  let value ← readByte
  putField "updi-ack" Session.byteStart ["ACK"]
  if value = ack then return ()
  else putWarning Session.byteStart s!"Expected ACK, got {Numeral.hexByte value}"

/-- Reads bytes; the first of them begins the value. -/
def readBlock : Nat → Reception σ Interrupt (List UInt8)
  | 0 => return []
  | n + 1 => do
    let first ← readByte
    markValue
    let rest ← readRest n
    return first :: rest
where
  readRest : Nat → Reception σ Interrupt (List UInt8)
    | 0 => return []
    | n + 1 => do
      let byte ← readByte
      let rest ← readRest n
      return byte :: rest

/-! ## Instructions -/

/-- LDS: an address, then the data found there. -/
def lds (cmd : UInt8) : Reception σ Interrupt Unit := do
  let addr ← readAddress cmd
  let data ← readData (dataSize cmd)
  putCommand "LDS" s!"{addr.text} <- {data.text}"

/-- LD: the data found where the pointer points.  The pointer itself cannot be loaded from. -/
def ld (cmd : UInt8) : Reception σ Interrupt Unit := do
  let data ← readData (dataSize cmd)
  match (Pointer.decode cmd).filter (· ≠ .register) with
  | some pointer =>
    putRound "LD" s!"{pointer.text} <- {data.text}" s!"... <- {data.text}" data.text
  | none => putWarning Session.valueStart s!"LD reserved pointer mode {addressSize cmd}"

/-- STS: an address and data, each acknowledged. -/
def sts (cmd : UInt8) : Reception σ Interrupt Unit := do
  let addr ← readAddress cmd
  readAck
  let data ← readData (dataSize cmd)
  readAck
  putCommand "STS" s!"{addr.text}, {data.text}"

/-- ST: data for where the pointer points, or for the pointer.  The command is complete only once
it is acknowledged. -/
def st (cmd : UInt8) : Reception σ Interrupt Unit := do
  let data ← readData (dataSize cmd)
  match Pointer.decode cmd with
  | some pointer =>
    readAck
    putRound "ST" s!"{pointer.text}, {data.text}" s!"..., {data.text}" data.text
  | none => putWarning Session.valueStart "ST reserved pointer mode 3"

/-- Number of a control register, from the low four bits of the command byte. -/
def controlRegister (cmd : UInt8) : String :=
  s!"[{Numeral.hexByte (cmd &&& 0x0F)}]"

/-- LDCS: the content of a control register. -/
def ldcs (cmd : UInt8) : Reception σ Interrupt Unit := do
  let data ← readData 0
  putCommand "LDCS" s!"{controlRegister cmd} <- {data.text}"

/-- STCS: a byte for a control register. -/
def stcs (cmd : UInt8) : Reception σ Interrupt Unit := do
  let data ← readData 0
  putCommand "STCS" s!"{controlRegister cmd}, {data.text}"

/-- Number of bytes in a key of the selected size. -/
def keyLength (size : Nat) : Option Nat :=
  match size with
  | 0 => some 8
  | 1 => some 16
  | _ => none

def putBlock (label : String) (bytes : List UInt8) : Reception σ ε Unit :=
  putField "updi-data" Session.valueStart
    [s!"{label}: {Numeral.hexBytes bytes}", Numeral.hexBytes bytes]

/-- KEY: eight or sixteen bytes. -/
def key (cmd : UInt8) : Reception σ Interrupt Unit :=
  match keyLength (dataSize cmd) with
  | some count => do
    let bytes ← readBlock count
    putBlock "Key" bytes
    putCommand "KEY" s!"0x{Numeral.hexBytes bytes}"
  | none => Script.fail (.halt (.undecodable (.unsupportedWidth "Key" (dataSize cmd))))

/-- READSIB: a system information block.  One that cannot be read is shown as bytes. -/
def readSib : Reception σ Interrupt Unit := do
  let bytes ← readBlock SystemInfo.length
  putBlock "SIB" bytes
  match SystemInfo.parse bytes with
  | .ok info => putCommand "READSIB" info.describe
  | .error e =>
    tell .debug fun _ => e.message
    putWarning Session.valueStart e.message
    putCommand "READSIB" (Numeral.hexBytes bytes)

/-- The payload of an instruction; REPEAT has none that could itself be repeated. -/
def payload? (cmd : UInt8) : Opcode → Option (Reception σ Interrupt Unit)
  | .lds => some (lds cmd)
  | .ld => some (ld cmd)
  | .sts => some (sts cmd)
  | .st => some (st cmd)
  | .ldcs => some (ldcs cmd)
  | .repeats => none
  | .stcs => some (stcs cmd)
  | .key => some (key cmd)
  | .readSib => some readSib

/-! ## Nothing unread is added -/

theorem frugal_putOpcode (name : String) : Frugal (putOpcode name : Reception σ ε Unit) :=
  frugal_putField _ _ _

theorem frugal_putCommand (name operands : String) :
    Frugal (putCommand name operands : Reception σ ε Unit) :=
  .bind (frugal_count _) fun _ => .emit _

theorem frugal_putRound (name operands again data : String) :
    Frugal (putRound name operands again data : Reception σ ε Unit) := by
  refine .bind (.read _) fun start => ?_
  cases start with
  | some _ => exact frugal_putCommand _ _
  | none => exact .emit _

theorem frugal_unknownOpcode (cmd : UInt8) : Frugal (unknownOpcode cmd : Reception σ ε Unit) :=
  .bind (frugal_tell _ _) fun _ => .bind (frugal_putOpcode _) fun _ => frugal_putWarning _ _

theorem frugal_markValue : Frugal (markValue : Reception σ ε Unit) :=
  frugal_modify fun _ => rfl

theorem frugal_readSized (size : Nat) (label : String) :
    Frugal (readSized size label : Reception σ Interrupt Value) := by
  unfold readSized
  split
  · exact .bind frugal_readByte fun _ => .bind frugal_markValue fun _ => .answer _
  · exact .bind frugal_readByte fun _ => .bind frugal_markValue fun _ =>
      .bind frugal_readByte fun _ => .answer _
  · exact .fail _

theorem frugal_readValue (size : Nat) (row label : String) :
    Frugal (readValue size row label : Reception σ Interrupt Value) :=
  .bind (frugal_readSized _ _) fun _ => .bind (frugal_putField _ _ _) fun _ => .answer _

theorem frugal_readAck : Frugal (readAck : Reception σ Interrupt Unit) :=
  .bind frugal_readByte fun _ => .bind (frugal_putField _ _ _) fun _ =>
    .ite (.answer _) (frugal_putWarning _ _)

theorem frugal_readRest (n : Nat) :
    Frugal (readBlock.readRest n : Reception σ Interrupt (List UInt8)) := by
  induction n with
  | zero => exact .answer _
  | succ n ih => exact .bind frugal_readByte fun _ => .bind ih fun _ => .answer _

theorem frugal_readBlock (n : Nat) :
    Frugal (readBlock n : Reception σ Interrupt (List UInt8)) := by
  cases n with
  | zero => exact .answer _
  | succ n =>
    exact .bind frugal_readByte fun _ => .bind frugal_markValue fun _ =>
      .bind (frugal_readRest n) fun _ => .answer _

theorem frugal_putBlock (label : String) (bytes : List UInt8) :
    Frugal (putBlock label bytes : Reception σ ε Unit) :=
  frugal_putField _ _ _

theorem frugal_ld (cmd : UInt8) : Frugal (ld cmd : Reception σ Interrupt Unit) := by
  refine .bind (frugal_readValue _ _ _) fun _ => ?_
  split
  · exact frugal_putRound _ _ _ _
  · exact frugal_putWarning _ _

theorem frugal_st (cmd : UInt8) : Frugal (st cmd : Reception σ Interrupt Unit) := by
  refine .bind (frugal_readValue _ _ _) fun _ => ?_
  split
  · exact .bind frugal_readAck fun _ => frugal_putRound _ _ _ _
  · exact frugal_putWarning _ _

theorem frugal_key (cmd : UInt8) : Frugal (key cmd : Reception σ Interrupt Unit) := by
  unfold key
  split
  · exact .bind (frugal_readBlock _) fun _ => .bind (frugal_putBlock _ _) fun _ =>
      frugal_putCommand _ _
  · exact .fail _

theorem frugal_readSib : Frugal (readSib : Reception σ Interrupt Unit) := by
  refine .bind (frugal_readBlock _) fun _ => .bind (frugal_putBlock _ _) fun _ => ?_
  split
  · exact frugal_putCommand _ _
  · exact .bind (frugal_tell _ _) fun _ => .bind (frugal_putWarning _ _) fun _ =>
      frugal_putCommand _ _

theorem frugal_payload {cmd : UInt8} {op : Opcode} {body : Reception σ Interrupt Unit}
    (h : payload? cmd op = some body) : Frugal body := by
  cases op <;> cases h
  · exact .bind (frugal_readValue _ _ _) fun _ => .bind (frugal_readValue _ _ _) fun _ =>
      frugal_putCommand _ _
  · exact frugal_ld cmd
  · exact .bind (frugal_readValue _ _ _) fun _ => .bind frugal_readAck fun _ =>
      .bind (frugal_readValue _ _ _) fun _ => .bind frugal_readAck fun _ => frugal_putCommand _ _
  · exact frugal_st cmd
  · exact .bind (frugal_readValue _ _ _) fun _ => frugal_putCommand _ _
  · exact .bind (frugal_readValue _ _ _) fun _ => frugal_putCommand _ _
  · exact frugal_key cmd
  · exact frugal_readSib

end Reception

end Updi

end BusDecode
