import BusDecode.Annotation
import BusDecode.Bits
import BusDecode.Numeral
import BusDecode.Script.Loop
import BusDecode.Updi.Decoder

/-!
# Receiving on a UPDI line

One command is received within a session, which keeps where the command and its parts began.  The
scripts here read edges, bits and bytes off the line and annotate them.  Every one of them leaves
at most as many samples unread as it found (the `frugal` lemmas), which is what makes the loops
built on them end.
-/

set_option autoImplicit false

namespace BusDecode

namespace Updi

/-- Why a command stops early. -/
inductive Interrupt where
  /-- broken framing: the command is dropped and the next sync awaited -/
  | resync
  /-- nothing more can be read at all -/
  | halt (reason : Halt)
  deriving DecidableEq, Repr

/-- A decoder at work on one command. -/
structure Session (σ : Type) where
  decoder : Decoder
  source : σ
  /-- start of the command; missing from the second round of a repeated one on -/
  commandStart : Option Nat := none
  byteStart : Nat := 0
  valueStart : Nat := 0
  /-- nominal end of the last frame; the cursor stops short of it -/
  frameEnd : Nat := 0

/-- What is done on a line: scripts over a session that emit annotations. -/
abbrev Reception (σ ε α : Type) : Type :=
  Script (Session σ) Annotation ε α

namespace Session

variable {σ ε α : Type}

/-- Position on the line. -/
def now (s : Session σ) : Nat :=
  s.decoder.cursor.now

/-- End of the element received last. -/
def stop (s : Session σ) : Nat :=
  max s.now s.frameEnd

/-- The same session with a change to the counts of its decoder. -/
def count (f : Stats → Stats) (s : Session σ) : Session σ :=
  { s with decoder.stats := f s.decoder.stats }

/-- Samples left to read, at most. -/
def unread [Source σ Sample] (s : Session σ) : Nat :=
  Source.size s.source

end Session

namespace Reception

variable {σ ε α : Type}

/-- A reception that only a halt can stop, as a part of a command. -/
def orHalt (m : Reception σ Halt α) : Reception σ Interrupt α :=
  Script.mapError .halt m

/-! ## Annotating -/

/-- Reports an event under the decoder's name. -/
def tell (severity : Severity) (message : Session σ → String) : Reception σ ε Unit :=
  Script.note fun s => .told s.decoder.name severity (message s)

/-- Annotates a bit from its start to the end of what was received. -/
def putBit (row : String) (start : Nat) (texts : List String) : Reception σ ε Unit :=
  Script.emit fun s => ⟨.bit, row, start, s.stop, texts⟩

/-- Annotates a byte from its start to the end of what was received. -/
def putByte (start : Nat) (value : UInt8) : Reception σ ε Unit :=
  Script.emit fun s => ⟨.byte, "byte-value", start, s.stop, [Numeral.hexByte value]⟩

/-- Annotates a field from its start to the end of what was received. -/
def putField (row : String) (start : Session σ → Nat) (texts : List String) : Reception σ ε Unit :=
  Script.emit fun s => ⟨.field, row, start s, s.stop, texts⟩

/-- Warns about what was received since a start. -/
def putWarning (start : Session σ → Nat) (text : String) : Reception σ ε Unit :=
  Script.emit fun s => .warning (start s) s.stop text

/-! ## Moving along the line -/

variable [Source σ Sample]

def move (step : LineCursor → σ → Except Halt Bool × LineCursor × σ) : Reception σ Halt Bool :=
  Script.lift fun s =>
    let (answer, cursor, source) := step s.decoder.cursor s.source
    let (events, source) := Source.takeEvents source
    (answer, { s with decoder.cursor := cursor, source }, events)

def waitEdge (edge : Edge) (budget : Option Nat) : Reception σ Halt Bool :=
  move (LineCursor.waitEdge edge budget)

/-- Moves on by a number of samples and answers with the level there. -/
def skip (samples : Nat) : Reception σ Halt Bool :=
  move (LineCursor.skip samples)

/-- Moves on by one bit time and answers with the level at its middle. -/
def sampleBit : Reception σ Halt Bool := do
  let period ← Script.read fun s => s.decoder.bitTime
  let level ← skip (period / 2)
  let _ ← skip ((period + 1) / 2)
  return level

/-! ## Bits and bytes -/

/-- Reads a data bit and annotates it with a label, or with its value. -/
def dataBit (label : Option String) : Reception σ Halt Bool := do
  let start ← Script.read Session.now
  let bit ← sampleBit
  putBit "data-bit" start [label.getD (if bit then "1" else "0")]
  return bit

/-- Reads data bits in the order in which they come. -/
def dataBits : Nat → Reception σ Halt (List Bool)
  | 0 => return []
  | n + 1 => do
    let bit ← dataBit none
    let bits ← dataBits n
    return bit :: bits

/-- Annotates the stop bits if they were high, and warns of a framing error if they were not. -/
def putStop (start : Nat) (level : Bool) : Reception σ ε Unit :=
  if level then putBit "stop-bit" start ["Stop bit", "Stop", "T"]
  else putWarning (fun _ => start) "Frame error"

/-- Samples the first stop bit at its middle and answers whether it was high.  The cursor stays
there, so that a period rounded up cannot carry it past the next start bit; the annotations still
reach to the end of the second stop bit. -/
def stopBits : Reception σ Halt Bool := do
  let start ← Script.read Session.now
  let period ← Script.read fun s => s.decoder.bitTime
  let level ← skip (period / 2)
  Script.modify fun s => { s with frameEnd := start + 2 * period }
  putStop start level
  return level

/-- Waits for a start bit that is still low at its middle, and answers where it began. -/
def startBit : Reception σ Interrupt Nat := do
  let _ ← (waitEdge .falling none).orHalt
  let start ← Script.read Session.now
  let period ← Script.read fun s => s.decoder.bitTime
  let high ← (skip (period / 2)).orHalt
  if high then
    tell .debug fun _ => s!"False start bit at {start}"
    Script.modify (Session.count fun c => { c with frameErrors := c.frameErrors + 1 })
    Script.fail .resync
  else
    let _ ← (skip ((period + 1) / 2)).orHalt
    putBit "start-bit" start ["Start bit", "Start", "S"]
    return start

def readByte : Reception σ Interrupt UInt8 := do
  let start ← startBit
  let bits ← (dataBits 8).orHalt
  let value := Bits.byte bits
  let stopped ← stopBits.orHalt
  if stopped then
    Script.modify fun s => { s with byteStart := start }
    tell .trace fun _ => s!"Byte {Numeral.hexByte value} at {start}"
    putByte start value
    return value
  else
    tell .debug fun _ => s!"Frame error in byte at {start}"
    Script.modify (Session.count fun c => { c with frameErrors := c.frameErrors + 1 })
    Script.fail .resync

/-! ## Nothing unread is added -/

/-- A reception never leaves more samples unread than it found. -/
abbrev Frugal (m : Reception σ ε α) : Prop :=
  Script.Keeps (Script.NoMore Session.unread) m

theorem frugal_orHalt {m : Reception σ Halt α} (h : Frugal m) : Frugal m.orHalt :=
  Script.Keeps.mapError h _

theorem frugal_modify {f : Session σ → Session σ} (h : ∀ s, (f s).source = s.source) :
    Frugal (Script.modify f : Reception σ ε Unit) :=
  Script.Keeps.modify fun s => Nat.le_of_eq (congrArg Source.size (h s))

theorem frugal_count (f : Stats → Stats) :
    Frugal (Script.modify (Session.count f) : Reception σ ε Unit) :=
  frugal_modify fun _ => rfl

theorem frugal_tell (severity : Severity) (message : Session σ → String) :
    Frugal (tell severity message : Reception σ ε Unit) :=
  .note _

theorem frugal_putBit (row : String) (start : Nat) (texts : List String) :
    Frugal (putBit row start texts : Reception σ ε Unit) :=
  .emit _

theorem frugal_putByte (start : Nat) (value : UInt8) :
    Frugal (putByte start value : Reception σ ε Unit) :=
  .emit _

theorem frugal_putField (row : String) (start : Session σ → Nat) (texts : List String) :
    Frugal (putField row start texts : Reception σ ε Unit) :=
  .emit _

theorem frugal_putWarning (start : Session σ → Nat) (text : String) :
    Frugal (putWarning start text : Reception σ ε Unit) :=
  .emit _

theorem frugal_putStop (start : Nat) (level : Bool) :
    Frugal (putStop start level : Reception σ ε Unit) :=
  .ite (frugal_putBit _ _ _) (frugal_putWarning _ _)

theorem frugal_move {step : LineCursor → σ → Except Halt Bool × LineCursor × σ}
    (h : ∀ c s, Source.size (step c s).2.2 ≤ Source.size s) : Frugal (move step) :=
  Script.Keeps.lift fun s =>
    Nat.le_trans (Source.size_takeEvents_le _) (h s.decoder.cursor s.source)

theorem frugal_waitEdge (edge : Edge) (budget : Option Nat) :
    Frugal (waitEdge edge budget : Reception σ Halt Bool) :=
  frugal_move fun c s => LineCursor.size_waitEdge_le edge budget c s

theorem frugal_skip (samples : Nat) : Frugal (skip samples : Reception σ Halt Bool) :=
  frugal_move fun c s => LineCursor.size_skip_le samples c s

theorem frugal_sampleBit : Frugal (sampleBit : Reception σ Halt Bool) :=
  .bind (.read _) fun _ => .bind (frugal_skip _) fun _ => .bind (frugal_skip _) fun _ => .answer _

theorem frugal_dataBit (label : Option String) : Frugal (dataBit label : Reception σ Halt Bool) :=
  .bind (.read _) fun _ => .bind frugal_sampleBit fun _ => .bind (frugal_putBit _ _ _) fun _ =>
    .answer _

theorem frugal_dataBits (n : Nat) : Frugal (dataBits n : Reception σ Halt (List Bool)) := by
  induction n with
  | zero => exact .answer _
  | succ n ih => exact .bind (frugal_dataBit _) fun _ => .bind ih fun _ => .answer _

theorem frugal_stopBits : Frugal (stopBits : Reception σ Halt Bool) :=
  .bind (.read _) fun _ => .bind (.read _) fun _ => .bind (frugal_skip _) fun _ =>
    .bind (frugal_modify fun _ => rfl) fun _ =>
      .bind (frugal_putStop _ _) fun _ => .answer _

theorem frugal_startBit : Frugal (startBit : Reception σ Interrupt Nat) :=
  .bind (frugal_orHalt (frugal_waitEdge _ _)) fun _ => .bind (.read _) fun _ =>
    .bind (.read _) fun _ => .bind (frugal_orHalt (frugal_skip _)) fun _ =>
      .ite (.bind (frugal_tell _ _) fun _ => .bind (frugal_count _) fun _ => .fail _)
        (.bind (frugal_orHalt (frugal_skip _)) fun _ => .bind (frugal_putBit _ _ _) fun _ =>
          .answer _)

theorem frugal_readByte : Frugal (readByte : Reception σ Interrupt UInt8) :=
  .bind frugal_startBit fun _ => .bind (frugal_orHalt (frugal_dataBits _)) fun _ =>
    .bind (frugal_orHalt frugal_stopBits) fun _ =>
      .ite (.bind (frugal_modify fun _ => rfl) fun _ => .bind (frugal_tell _ _) fun _ =>
          .bind (frugal_putByte _ _) fun _ => .answer _)
        (.bind (frugal_tell _ _) fun _ => .bind (frugal_count _) fun _ => .fail _)

/-- Waiting for an edge without a budget reads at least one sample. -/
theorem consumes_waitEdge (edge : Edge) :
    Script.Consumes Session.unread (waitEdge edge none : Reception σ Halt Bool) := by
  intro s b h
  exact Nat.lt_of_le_of_lt (Source.size_takeEvents_le _) (LineCursor.size_waitEdge_lt h)

end Reception

end Updi

end BusDecode
