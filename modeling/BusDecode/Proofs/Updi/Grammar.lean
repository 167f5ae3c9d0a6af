import BusDecode.Annotation
import BusDecode.Numeral
import BusDecode.Updi.Opcode
import BusDecode.Updi.SystemInfo

/-!
# The byte grammar of UPDI commands

What the bytes of a command mean, with no line, no time and no decoder: a grammar takes bytes,
says marks and may stop at a size that does not exist.  The payload of every instruction is a
`Format`, a list of slots and a closing; a command is an opcode with its payload, or a REPEAT with
the command it repeats.  `Grammar.marks` are the marks for given bytes, cut off where these end.
-/

set_option autoImplicit false

namespace BusDecode

namespace Updi

/-! ## Marks -/

/-- An annotation without its place on the line. -/
structure Mark where
  kind : AnnotationKind
  row : String
  texts : List String
  deriving DecidableEq, Repr

namespace Mark

def field (row : String) (texts : List String) : Mark :=
  ⟨.field, row, texts⟩

def opcode (name : String) : Mark :=
  field "updi-opcode" [s!"Opcode: {name}", name]

def value (row label text : String) : Mark :=
  field row [s!"{label}: {text}", text]

def command (texts : List String) : Mark :=
  ⟨.command, "updi", texts⟩

/-- A command written in full, then by its name alone. -/
def whole (name operands : String) : Mark :=
  command [s!"{name} {operands}", name]

def warning (text : String) : Mark :=
  ⟨.warning, "warnings", [text]⟩

def inRow (row : String) (ms : List Mark) : List (List String) :=
  (ms.filter (·.row = row)).map Mark.texts

section Rows

variable (row : String)

@[simp] theorem inRow_nil : inRow row [] = [] := rfl

@[simp] theorem inRow_append (ms ms' : List Mark) :
    inRow row (ms ++ ms') = inRow row ms ++ inRow row ms' := by
  simp [inRow]

theorem inRow_cons (m : Mark) (ms : List Mark) :
    inRow row (m :: ms) = if m.row = row then m.texts :: inRow row ms else inRow row ms := by
  unfold inRow
  by_cases h : m.row = row <;> simp [h]

@[simp] theorem inRow_field (row' : String) (texts : List String) (ms : List Mark) :
    inRow row (field row' texts :: ms) =
      if row' = row then texts :: inRow row ms else inRow row ms :=
  inRow_cons row _ _

@[simp] theorem inRow_value (row' label text : String) (ms : List Mark) :
    inRow row (value row' label text :: ms) =
      if row' = row then [s!"{label}: {text}", text] :: inRow row ms else inRow row ms :=
  inRow_cons row _ _

@[simp] theorem inRow_opcode (name : String) (ms : List Mark) :
    inRow row (opcode name :: ms) =
      if "updi-opcode" = row then [s!"Opcode: {name}", name] :: inRow row ms else inRow row ms :=
  inRow_cons row _ _

@[simp] theorem inRow_command (texts : List String) (ms : List Mark) :
    inRow row (command texts :: ms) =
      if "updi" = row then texts :: inRow row ms else inRow row ms :=
  inRow_cons row _ _

@[simp] theorem inRow_whole (name operands : String) (ms : List Mark) :
    inRow row (whole name operands :: ms) =
      if "updi" = row then [s!"{name} {operands}", name] :: inRow row ms else inRow row ms :=
  inRow_cons row _ _

@[simp] theorem inRow_warning (text : String) (ms : List Mark) :
    inRow row (warning text :: ms) =
      if "warnings" = row then [text] :: inRow row ms else inRow row ms :=
  inRow_cons row _ _

end Rows

end Mark

/-! ## Grammars -/

/-- What a reader of bytes does: it takes bytes, says marks, awaits a sync, and ends with an
answer or refuses a size. -/
inductive Grammar (α : Type) where
  | done (a : α)
  | refuse (e : DecodeError)
  | say (m : Mark) (rest : Grammar α)
  | byte (rest : UInt8 → Grammar α)
  | resync (rest : Grammar α)

namespace Grammar

variable {α β γ : Type}

def andThen : Grammar α → (α → Grammar β) → Grammar β
  | done a, f => f a
  | refuse e, _ => refuse e
  | say m g, f => say m (g.andThen f)
  | byte k, f => byte fun b => (k b).andThen f
  | resync g, f => resync (g.andThen f)

instance : Monad Grammar where
  pure := done
  bind := andThen

theorem andThen_done (g : Grammar α) : g.andThen done = g := by
  induction g with
  | done a => rfl
  | refuse e => rfl
  | say m g ih => rw [andThen, ih]
  | byte k ih => rw [andThen, funext ih]
  | resync g ih => rw [andThen, ih]

theorem andThen_assoc (g : Grammar α) (f : α → Grammar β) (f' : β → Grammar γ) :
    (g.andThen f).andThen f' = g.andThen fun a => (f a).andThen f' := by
  induction g with
  | done a => rfl
  | refuse e => rfl
  | say m g ih => rw [andThen, andThen, ih, andThen]
  | byte k ih => rw [andThen, andThen, funext ih, andThen]
  | resync g ih => rw [andThen, andThen, ih, andThen]

instance : LawfulMonad Grammar := LawfulMonad.mk' _
  (by
    intro α g
    exact andThen_done g)
  (by
    intro α β a f
    rfl)
  (by
    intro α β γ g f f'
    exact andThen_assoc g f f')

/-- The marks said on given bytes, as far as these go. -/
def marks : Grammar α → List UInt8 → List Mark
  | done _, _ => []
  | refuse _, _ => []
  | say m g, bs => m :: g.marks bs
  | byte k, b :: bs => (k b).marks bs
  | byte _, [] => []
  | resync g, bs => g.marks bs

/-- The bytes that a grammar ends before. -/
def left : Grammar α → List UInt8 → List UInt8
  | done _, bs => bs
  | refuse _, bs => bs
  | say _ g, bs => g.left bs
  | byte k, b :: bs => (k b).left bs
  | byte _, [] => []
  | resync g, bs => g.left bs

/-- The size refused on given bytes, if they reach one. -/
def refused : Grammar α → List UInt8 → Option DecodeError
  | done _, _ => none
  | refuse e, _ => some e
  | say _ g, bs => g.refused bs
  | byte k, b :: bs => (k b).refused bs
  | byte _, [] => none
  | resync g, bs => g.refused bs

def next : Grammar UInt8 :=
  byte done

def bytes : Nat → Grammar (List UInt8)
  | 0 => return []
  | n + 1 => do
    let b ← next
    let bs ← bytes n
    return b :: bs

def sayAll : List Mark → Grammar Unit
  | [] => return ()
  | m :: ms => say m (sayAll ms)

theorem sayAll_cons (m : Mark) (ms : List Mark) :
    sayAll (m :: ms) = (do sayAll [m]; sayAll ms) := rfl

def times : Nat → Grammar Unit → Grammar Unit
  | 0, _ => return ()
  | n + 1, g => do
    g
    times n g

end Grammar

/-! ## Payloads -/

/-- A value is written with its high byte first, while its low byte comes first on the line. -/
def valueText (bytes : List UInt8) : String :=
  Numeral.hexBytes bytes.reverse

/-- The number that bytes stand for, the low one first. -/
def littleEndian : List UInt8 → Nat
  | [] => 0
  | b :: bs => b.toNat + 256 * littleEndian bs

/-- A part of a payload: how many bytes it has, and the marks for them. -/
structure Slot where
  length : Except DecodeError Nat
  marks : List UInt8 → List Mark

namespace Slot

/-- A value of one byte for selector 0 and of two for selector 1. -/
def value (row label : String) (selector : Nat) : Slot where
  length := if selector < 2 then .ok (selector + 1) else .error (.unsupportedWidth label selector)
  marks bytes := [.value row label (valueText bytes)]

/-- The byte of a device that has taken something. -/
def ack : Slot where
  length := .ok 1
  marks bytes :=
    .field "updi-ack" ["ACK"] ::
      if bytes = [0x40] then [] else [.warning s!"Expected ACK, got {Numeral.hexBytes bytes}"]

/-- A block of bytes, written in the order in which they come. -/
def block (label : String) (length : Except DecodeError Nat) : Slot where
  length := length
  marks bytes := [.value "updi-data" label (Numeral.hexBytes bytes)]

end Slot

/-- The payload of an instruction: its slots and, once they are filled, the marks for the whole.
These may differ between the first round of a REPEAT and the others. -/
structure Format where
  slots : List Slot
  closing : Bool → List (List UInt8) → List Mark

/-- Selector in bits 2 and 3 of a command byte. -/
def highSelector (cmd : UInt8) : Nat :=
  cmd.toNat / 4 % 4

/-- Selector in bits 0 and 1 of a command byte. -/
def lowSelector (cmd : UInt8) : Nat :=
  cmd.toNat % 4

namespace Slot

def address (cmd : UInt8) : Slot :=
  value "updi-addr" "Addr" (highSelector cmd)

def data (cmd : UInt8) : Slot :=
  value "updi-data" "Data" (lowSelector cmd)

def content : Slot :=
  value "updi-data" "Data" 0

end Slot

namespace Format

def lds (cmd : UInt8) : Format where
  slots := [.address cmd, .data cmd]
  closing
    | _, [addr, data] => [.whole "LDS" s!"{valueText addr} <- {valueText data}"]
    | _, _ => []

def ld (cmd : UInt8) : Format where
  slots := [.data cmd]
  closing first operands :=
    match ["[P]", "[P+]"][highSelector cmd]?, first, operands with
    | some pointer, true, [data] => [.whole "LD" s!"{pointer} <- {valueText data}"]
    | some _, false, [data] => [.command [s!"... <- {valueText data}", valueText data]]
    | _, _, _ => [.warning s!"LD reserved pointer mode {highSelector cmd}"]

def sts (cmd : UInt8) : Format where
  slots := [.address cmd, .ack, .data cmd, .ack]
  closing
    | _, [addr, _, data, _] => [.whole "STS" s!"{valueText addr}, {valueText data}"]
    | _, _ => []

def st (cmd : UInt8) : Format :=
  match ["[P]", "[P+]", "P"][highSelector cmd]? with
  | some pointer =>
    { slots := [.data cmd, .ack]
      closing
        | true, [data, _] => [.whole "ST" s!"{pointer}, {valueText data}"]
        | false, [data, _] => [.command [s!"..., {valueText data}", valueText data]]
        | _, _ => [] }
  | none =>
    { slots := [.data cmd]
      closing _ _ := [.warning "ST reserved pointer mode 3"] }

def register (cmd : UInt8) : String :=
  s!"[{Numeral.hex 2 (cmd.toNat % 16)}]"

def ldcs (cmd : UInt8) : Format where
  slots := [.content]
  closing
    | _, [data] => [.whole "LDCS" s!"{register cmd} <- {valueText data}"]
    | _, _ => []

def stcs (cmd : UInt8) : Format where
  slots := [.content]
  closing
    | _, [data] => [.whole "STCS" s!"{register cmd}, {valueText data}"]
    | _, _ => []

def key (cmd : UInt8) : Format where
  slots :=
    [.block "Key" (if lowSelector cmd < 2 then .ok (8 * (lowSelector cmd + 1))
      else .error (.unsupportedWidth "Key" (lowSelector cmd)))]
  closing
    | _, [bytes] => [.whole "KEY" s!"0x{Numeral.hexBytes bytes}"]
    | _, _ => []

def readSib : Format where
  slots := [.block "SIB" (.ok 16)]
  closing
    | _, [bytes] =>
      match SystemInfo.parse bytes with
      | .ok info => [.whole "READSIB" info.describe]
      | .error e => [.warning e.message, .whole "READSIB" (Numeral.hexBytes bytes)]
    | _, _ => []

def of (cmd : UInt8) : Opcode → Option Format
  | .lds => some (lds cmd)
  | .ld => some (ld cmd)
  | .sts => some (sts cmd)
  | .st => some (st cmd)
  | .ldcs => some (ldcs cmd)
  | .repeats => none
  | .stcs => some (stcs cmd)
  | .key => some (key cmd)
  | .readSib => some readSib

end Format

/-! ## Commands -/

/-- The instruction of a command byte: a few bytes from `E0` on, else its top three bits. -/
def instruction? (cmd : UInt8) : Option Opcode :=
  if cmd ∈ [0xE0, 0xE1, 0xE2, 0xE3] then some .key
  else if cmd = 0xE5 then some .readSib
  else [.lds, .ld, .sts, .st, .ldcs, .repeats, .stcs][cmd.toNat / 32]?

namespace Grammar

def slot (s : Slot) : Grammar (List UInt8) :=
  match s.length with
  | .ok n => do
    let bs ← bytes n
    sayAll (s.marks bs)
    return bs
  | .error e => refuse e

def slots : List Slot → Grammar (List (List UInt8))
  | [] => return []
  | s :: rest => do
    let bs ← slot s
    let bss ← slots rest
    return bs :: bss

/-- A payload in the first round of an instruction or in a further one. -/
def payload (f : Format) (first : Bool) : Grammar Unit := do
  let operands ← slots f.slots
  sayAll (f.closing first operands)

/-- A byte that names no instruction has no payload. -/
def unknown (cmd : UInt8) : Grammar Unit :=
  sayAll [.opcode "??", .warning s!"Unknown opcode {Numeral.hexByte cmd}"]

/-- The command behind a REPEAT: one round more than the count says. -/
def repeated (count : Nat) (cmd : UInt8) : Grammar Unit :=
  match instruction? cmd with
  | none => unknown cmd
  | some op =>
    match Format.of cmd op with
    | none => sayAll [.opcode "REPEAT!", .warning "REPEAT cannot be repeated"]
    | some f => do
      sayAll [.opcode op.mnemonic]
      payload f true
      times count (payload f false)

/-- REPEAT: a count, then a command with a sync of its own. -/
def repeats (cmd : UInt8) : Grammar Unit := do
  let count ← slot (.value "updi-data" "Count" (lowSelector cmd))
  sayAll [.whole "REPEAT" (toString (littleEndian count))]
  resync do
    let cmd ← next
    repeated (littleEndian count) cmd

/-- A command after its sync. -/
def command : Grammar Unit := do
  let cmd ← next
  match instruction? cmd with
  | none => unknown cmd
  | some op => do
    sayAll [.opcode op.mnemonic]
    match Format.of cmd op with
    | some f => payload f true
    | none => repeats cmd

end Grammar

end Updi

end BusDecode
