import BusDecode.Hvsp.Decoder

/-!
# Frames of the programming clock

What a list of pin vectors says in high-voltage serial programming, read off its clock edges
without a decoder: `r j` and `f j` are the rising and falling edges of clock cycle `j`, a frame is
a number of cycles, and `Clock.frame` lists the words and the instruction of one frame as far as
its edges occurred.  `Verdict.ofWords` is the instruction table on plain numbers.
-/

set_option autoImplicit false

namespace BusDecode

namespace Hvsp

/-! ## The instruction table -/

/-- What becomes of the two words of a frame. -/
inductive Verdict where
  | command (text : String)
  | warning (text : String)
  deriving DecidableEq, Repr

namespace Verdict

def annotate (start stop : Nat) : Verdict → Annotation
  | command text => ⟨.command, "instr", start, stop, [text]⟩
  | warning text => .warning start stop text

def commandNames : List (Nat × String) :=
  [(0x80, "CE"), (0x40, "WFUSE"), (0x20, "WLOCK"), (0x10, "WFLASH"), (0x11, "WEEP"),
    (0x08, "RSIG"), (0x04, "RFUSE"), (0x02, "RFLASH"), (0x03, "REEP")]

/-- LOAD ADDRESS and LOAD DATA: one of two bytes, by the byte select. -/
def load (register : Char) (bs operand : Nat) : Verdict :=
  if bs = 0 then command s!"LL{register} {Numeral.hex 2 operand}"
  else if bs = 1 then command s!"LH{register} {Numeral.hex 2 operand}"
  else warning s!"L{register} invalid BS={bs}"

/-- LOAD COMMAND: the low byte only, and only a known command. -/
def loadCommand (bs operand : Nat) : Verdict :=
  if bs = 0 then
    match commandNames.lookup operand with
    | some name => command s!"CMD {name}"
    | none => warning "CMD unknown"
  else warning "Invalid BS"

/-- Bit 6 and 5 of the instruction word select the action (XA), bit 4 and 1 the byte (BS, bit 4
being its low bit).  The strobes are bit 3 (WR) and 2 (OE), asserted when low, and bit 0 (PAGEL),
asserted when high.  No strobe goes with an action below 3, and no two go together. -/
def ofWords (instruction operand : Nat) : Verdict :=
  let xa := instruction / 32 % 4
  let bs := instruction / 16 % 2 + 2 * (instruction / 2 % 2)
  let wr := instruction / 8 % 2 = 0
  let oe := instruction / 4 % 2 = 0
  let pagel := instruction % 2 = 1
  if xa ≠ 3 ∧ wr then warning "Invalid WR"
  else if xa ≠ 3 ∧ oe then warning "Invalid OE"
  else if xa ≠ 3 ∧ pagel then warning "Invalid PAGEL"
  else if wr ∧ oe then warning "Invalid WR+OE"
  else if wr ∧ pagel then warning "Invalid WR+PAGEL"
  else if oe ∧ pagel then warning "Invalid OE+PAGEL"
  else if xa = 0 then load 'A' bs operand
  else if xa = 1 then load 'D' bs operand
  else if xa = 2 then loadCommand bs operand
  else warning "XA=3 not handled"

end Verdict

/-! ## Clock cycles -/

namespace Clock

/-- The pin vectors whose clock level differs from that of the vector before. -/
def edges (vs : List PinVector) : List PinVector :=
  ((vs.zip vs.tail).filter fun (u, v) => u.pin sci != v.pin sci).map Prod.snd

/-- The clock edges from the first rising one on. -/
def cycles (vs : List PinVector) : List PinVector :=
  (edges vs).dropWhile fun v => !v.pin sci

variable (es : List PinVector)

def r (j : Nat) : PinVector :=
  es[2 * j]!

def f (j : Nat) : PinVector :=
  es[2 * j + 1]!

/-- Whether the rising edge of a cycle occurred. -/
def rose (j : Nat) : Bool :=
  2 * j < es.length

/-- Whether the falling edge of a cycle occurred. -/
def fell (j : Nat) : Bool :=
  2 * j + 1 < es.length

/-! ## Words -/

/-- A number from its bits, most significant first. -/
def number (bits : List Bool) : Nat :=
  bits.foldl (fun n b => 2 * n + b.toNat) 0

/-- Levels of SII or SDI in the frame that begins at a cycle. -/
def input (line first : Nat) : List Bool :=
  (List.range 8).map fun i => (r es (first + 1 + i)).pin line

/-- Levels of SDO in the frame that begins at a cycle. -/
def output (first : Nat) : List Bool :=
  (List.range 8).map fun i => (f es (first + i)).pin sdo

def byte (row : String) (start stop : PinVector) (bits : List Bool) : Annotation :=
  ⟨.byte, row, start.time, stop.time, [Numeral.hex 2 (number bits)]⟩

/-! ## Bits -/

def bit (row : String) (start stop : PinVector) (text : String) : Annotation :=
  ⟨.bit, row, start.time, stop.time, [text]⟩

def digit (level : Bool) : String :=
  if level then "1" else "0"

/-- Bit `i` of SDO in the frame that begins at a cycle, from one rising edge to the next. -/
def sdoBit (first i : Nat) : Annotation :=
  bit "sdo-bits" (r es (first + i)) (r es (first + i + 1)) (digit ((f es (first + i)).pin sdo))

/-- Bit `i` of SDI, from one falling edge to the next. -/
def sdiBit (first i : Nat) : Annotation :=
  bit "sdi-bits" (f es (first + i)) (f es (first + i + 1))
    (digit ((r es (first + 1 + i)).pin sdi))

/-- Bit `i` of SII, as far as it is a control line; the first one is none. -/
def siiBit (first i : Nat) : List Annotation :=
  (controlLine? (i + 1)).toList.map fun line =>
    bit "sii-bits" (f es (first + i)) (f es (first + i + 1))
      (line.text ((r es (first + 1 + i)).pin sii))

/-! ## Frames -/

/-- The word on SDO: it is complete at the ninth rising edge. -/
def outputWord (first : Nat) : List Annotation :=
  if rose es (first + 8) then
    [byte "sdo" (r es first) (r es (first + 8)) (output es first)]
  else []

/-- The words on SII and SDI: they are complete at the ninth falling edge. -/
def inputWords (first : Nat) : List Annotation :=
  if fell es (first + 8) then
    [byte "sii" (f es first) (f es (first + 8)) (input es sii first),
      byte "sdi" (f es first) (f es (first + 8)) (input es sdi first)]
  else []

/-- The instruction: it is interpreted at the last falling edge. -/
def instruction (positions first : Nat) : List Annotation :=
  if fell es (first + positions - 1) then
    [(Verdict.ofWords (number (input es sii first)) (number (input es sdi first))).annotate
      (r es first).time (f es (first + positions - 1)).time]
  else []

/-- Frame `k`: the cycles from `k * positions` up to the next frame. -/
def frame (positions k : Nat) : List Annotation :=
  outputWord es (k * positions) ++ inputWords es (k * positions) ++
    instruction es positions (k * positions)

/-- The rows of the words and of the instructions. -/
def rows : List String :=
  ["sii", "sdi", "sdo", "instr", Annotation.warningRow]

end Clock

end Hvsp

end BusDecode
