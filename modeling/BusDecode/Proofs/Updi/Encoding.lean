import BusDecode.Proofs.Numeral
import BusDecode.Proofs.Updi.Grammar

/-!
# Encoding UPDI commands

The other way round from the byte grammar: commands as a host means them, with operands of the
sizes that exist, and the symbols with which they are sent (`Command.symbols`).  The grammar takes
the symbols of every command and renders it again (`Command.takes`).
-/

set_option autoImplicit false

namespace BusDecode

namespace Updi

/-! ## Symbols -/

/-- What a host sends: the byte that opens a command, and the bytes after it. -/
inductive Symbol where
  | sync
  | byte (b : UInt8)
  deriving DecidableEq, Repr

namespace Symbol

def value : Symbol → UInt8
  | sync => 0x55
  | byte b => b

def syncs (xs : List Symbol) : Nat :=
  xs.count sync

end Symbol

namespace Grammar

variable {α β : Type}

/-- The grammar takes just these symbols; it answers and says marks. -/
inductive Takes {α : Type} : Grammar α → List Symbol → α → List Mark → Prop where
  | done (a : α) : Takes (.done a) [] a []
  | say {g : Grammar α} {xs : List Symbol} {a : α} {ms : List Mark} (m : Mark)
      (h : Takes g xs a ms) : Takes (.say m g) xs a (m :: ms)
  | byte {k : UInt8 → Grammar α} {b : UInt8} {xs : List Symbol} {a : α} {ms : List Mark}
      (h : Takes (k b) xs a ms) : Takes (.byte k) (.byte b :: xs) a ms
  | resync {g : Grammar α} {xs : List Symbol} {a : α} {ms : List Mark}
      (h : Takes g xs a ms) : Takes (.resync g) (.sync :: xs) a ms

namespace Takes

variable {g : Grammar α} {f : α → Grammar β} {xs ys : List Symbol} {a : α} {b : β}
  {ms ms' : List Mark}

theorem bind (h : Takes g xs a ms) (hf : Takes (f a) ys b ms') :
    Takes (g >>= f) (xs ++ ys) b (ms ++ ms') := by
  change Takes (g.andThen f) _ _ _
  induction h with
  | done a => exact hf
  | say m h ih => exact .say m (ih hf)
  | byte h ih => exact .byte (ih hf)
  | resync h ih => exact .resync (ih hf)

theorem answer (h : Takes g xs a ms) (k : α → β) :
    Takes (g >>= fun a => pure (k a)) xs (k a) ms := by
  have hdone := h.bind (f := fun a => pure (k a)) (.done (k a))
  rwa [List.append_nil, List.append_nil] at hdone

theorem sayAll (ms : List Mark) : Takes (Grammar.sayAll ms) [] () ms := by
  induction ms with
  | nil => exact .done ()
  | cons m ms ih => exact .say m ih

theorem say_then {f : Unit → Grammar β} (hf : Takes (f ()) xs b ms') :
    Takes (Grammar.sayAll ms >>= f) xs b (ms ++ ms') :=
  (sayAll ms).bind hf

theorem next (b : UInt8) : Takes Grammar.next [.byte b] b [] :=
  .byte (.done b)

theorem next_then {b : UInt8} {f : UInt8 → Grammar β} {c : β} (hf : Takes (f b) xs c ms) :
    Takes (Grammar.next >>= f) (.byte b :: xs) c ms :=
  (next b).bind hf

theorem bytes (bs : List UInt8) : Takes (Grammar.bytes bs.length) (bs.map .byte) bs [] := by
  induction bs with
  | nil => exact .done []
  | cons b bs ih => exact (next b).bind (ih.answer (b :: ·))

theorem slot {s : Slot} {bs : List UInt8} (h : s.length = .ok bs.length) :
    Takes (Grammar.slot s) (bs.map .byte) bs (s.marks bs) := by
  unfold Grammar.slot
  rw [h]
  have hsay := (sayAll (s.marks bs)).answer fun _ => bs
  have hslot := (bytes bs).bind (f := fun bs => do
    Grammar.sayAll (s.marks bs)
    return bs) hsay
  rwa [List.append_nil] at hslot

end Takes

@[simp] def slotMarks : List Slot → List (List UInt8) → List Mark
  | s :: ss, bs :: bss => s.marks bs ++ slotMarks ss bss
  | _, _ => []

@[simp] def payloadMarks (f : Format) (first : Bool) (bss : List (List UInt8)) : List Mark :=
  slotMarks f.slots bss ++ f.closing first bss

namespace Takes

theorem slots {ss : List Slot} {bss : List (List UInt8)}
    (h : ss.map Slot.length = bss.map fun bs => .ok bs.length) :
    Takes (Grammar.slots ss) (bss.flatten.map .byte) bss (slotMarks ss bss) := by
  induction ss generalizing bss with
  | nil =>
    obtain rfl : bss = [] := List.map_eq_nil_iff.1 h.symm
    exact .done []
  | cons s ss ih =>
    cases bss with
    | nil => cases h
    | cons bs bss =>
      rw [List.map_cons, List.map_cons, List.cons.injEq] at h
      rw [List.flatten_cons, List.map_append]
      exact (slot h.1).bind ((ih h.2).answer (bs :: ·))

theorem payload {f : Format} (first : Bool) {bss : List (List UInt8)}
    (h : f.slots.map Slot.length = bss.map fun bs => .ok bs.length) :
    Takes (Grammar.payload f first) (bss.flatten.map .byte) () (payloadMarks f first bss) := by
  have htakes := (slots h).bind (f := fun bss => Grammar.sayAll (f.closing first bss))
    (sayAll (f.closing first bss))
  rwa [List.append_nil] at htakes

end Takes

end Grammar

/-! ## Instructions -/

inductive Width where
  | byte
  | word
  deriving DecidableEq, Repr

namespace Width

def selector : Width → UInt8
  | byte => 0
  | word => 1

def length : Width → Nat
  | byte => 1
  | word => 2

theorem length_value (w : Width) (row label : String) :
    (Slot.value row label w.selector.toNat).length = .ok w.length := by
  cases w <;> rfl

end Width

/-- Bytes of an operand in the order in which they are sent. -/
abbrev Bytes (n : Nat) : Type :=
  Vector UInt8 n

def Pointer.selector : Pointer → UInt8
  | indirect => 0
  | increment => 1
  | register => 2

/-- An instruction other than REPEAT, with everything its opcode says. -/
inductive Instruction where
  | lds (address data : Width)
  | ld (increment : Bool) (data : Width)
  | sts (address data : Width)
  | st (pointer : Pointer) (data : Width)
  | ldcs (register : Fin 16)
  | stcs (register : Fin 16)
  | key (size : Width)
  | readSib
  deriving DecidableEq, Repr

namespace Instruction

def loadPointer (increment : Bool) : Pointer :=
  if increment then .increment else .indirect

def opcode : Instruction → UInt8
  | lds address data => 0x00 + 4 * address.selector + data.selector
  | ld increment data => 0x20 + 4 * (loadPointer increment).selector + data.selector
  | sts address data => 0x40 + 4 * address.selector + data.selector
  | st pointer data => 0x60 + 4 * pointer.selector + data.selector
  | ldcs register => 0x80 + UInt8.ofNat register
  | stcs register => 0xC0 + UInt8.ofNat register
  | key size => 0xE0 + size.selector
  | readSib => 0xE5

@[simp] def name : Instruction → String
  | lds .. => "LDS"
  | ld .. => "LD"
  | sts .. => "STS"
  | st .. => "ST"
  | ldcs _ => "LDCS"
  | stcs _ => "STCS"
  | key _ => "KEY"
  | readSib => "READSIB"

/-- What is sent after the opcode, both ways: operands and acknowledgements. -/
def Payload : Instruction → Type
  | lds address data => Bytes address.length × Bytes data.length
  | ld _ data => Bytes data.length
  | sts address data => Bytes address.length × UInt8 × Bytes data.length × UInt8
  | st _ data => Bytes data.length × UInt8
  | ldcs _ => UInt8
  | stcs _ => UInt8
  | key size => Bytes (8 * size.length)
  | readSib => Bytes 16

@[simp] def operands : (i : Instruction) → i.Payload → List (List UInt8)
  | lds _ _, (address, data) => [address.toList, data.toList]
  | ld _ _, data => [data.toList]
  | sts _ _, (address, ack, data, ack') => [address.toList, [ack], data.toList, [ack']]
  | st _ _, (data, ack) => [data.toList, [ack]]
  | ldcs _, content => [[content]]
  | stcs _, content => [[content]]
  | key _, bytes => [bytes.toList]
  | readSib, bytes => [bytes.toList]

def registerText (register : Fin 16) : String :=
  s!"[{Numeral.hex 2 register}]"

@[simp] def operandText : (i : Instruction) → i.Payload → String
  | lds _ _, (address, data) => s!"{valueText address.toList} <- {valueText data.toList}"
  | ld increment _, data => s!"{(loadPointer increment).text} <- {valueText data.toList}"
  | sts _ _, (address, _, data, _) => s!"{valueText address.toList}, {valueText data.toList}"
  | st pointer _, (data, _) => s!"{pointer.text}, {valueText data.toList}"
  | ldcs register, content => s!"{registerText register} <- {Numeral.hexByte content}"
  | stcs register, content => s!"{registerText register}, {Numeral.hexByte content}"
  | key _, bytes => s!"0x{Numeral.hexBytes bytes.toList}"
  | readSib, bytes =>
    match SystemInfo.parse bytes.toList with
    | .ok info => info.describe
    | .error _ => Numeral.hexBytes bytes.toList

@[simp] def rendering (i : Instruction) (x : i.Payload) : List String :=
  [s!"{i.name} {i.operandText x}", i.name]

/-- A further round of a REPEAT: loads and stores through the pointer go on from the round before,
everything else is written in full again. -/
@[simp] def again : (i : Instruction) → i.Payload → List String
  | ld _ _, data => [s!"... <- {valueText data.toList}", valueText data.toList]
  | st _ _, (data, _) => [s!"..., {valueText data.toList}", valueText data.toList]
  | i, x => i.rendering x

/-- An acknowledgement is warned of unless it is `0x40`. -/
def ackWarnings (ack : UInt8) : List String :=
  if ack = 0x40 then [] else [s!"Expected ACK, got {Numeral.hexByte ack}"]

@[simp] def warnings : (i : Instruction) → i.Payload → List String
  | sts _ _, (_, ack, _, ack') => ackWarnings ack ++ ackWarnings ack'
  | st _ _, (_, ack) => ackWarnings ack
  | readSib, bytes =>
    match SystemInfo.parse bytes.toList with
    | .ok _ => []
    | .error e => [e.message]
  | _, _ => []

/-! ### Instructions and formats -/

def symbols (i : Instruction) (x : i.Payload) : List Symbol :=
  (i.operands x).flatten.map .byte

/-- A format of the byte grammar has the operands of an instruction and renders them as it does. -/
structure Fits (i : Instruction) (f : Format) : Prop where
  lengths : ∀ x : i.Payload, f.slots.map Slot.length = (i.operands x).map fun bs => .ok bs.length
  updi : ∀ (first : Bool) (x : i.Payload),
    Mark.inRow "updi" (Grammar.payloadMarks f first (i.operands x)) =
      [if first then i.rendering x else i.again x]
  warnings : ∀ (first : Bool) (x : i.Payload),
    Mark.inRow "warnings" (Grammar.payloadMarks f first (i.operands x)) =
      (i.warnings x).map ([·])

section Selectors

variable (pointer : Pointer) (address data : Width)

theorem lds_opcode : instruction? (lds address data).opcode = some .lds ∧
    highSelector (lds address data).opcode = address.selector.toNat ∧
    lowSelector (lds address data).opcode = data.selector.toNat := by
  cases address <;> cases data <;> decide

theorem ld_opcode (increment : Bool) : instruction? (ld increment data).opcode = some .ld ∧
    highSelector (ld increment data).opcode = (loadPointer increment).selector.toNat ∧
    lowSelector (ld increment data).opcode = data.selector.toNat := by
  cases increment <;> cases data <;> decide

theorem sts_opcode : instruction? (sts address data).opcode = some .sts ∧
    highSelector (sts address data).opcode = address.selector.toNat ∧
    lowSelector (sts address data).opcode = data.selector.toNat := by
  cases address <;> cases data <;> decide

theorem st_opcode : instruction? (st pointer data).opcode = some .st ∧
    highSelector (st pointer data).opcode = pointer.selector.toNat ∧
    lowSelector (st pointer data).opcode = data.selector.toNat := by
  cases pointer <;> cases data <;> decide

theorem ldcs_opcode (register : Fin 16) : instruction? (ldcs register).opcode = some .ldcs ∧
    (ldcs register).opcode.toNat % 16 = register := by
  revert register
  decide

theorem stcs_opcode (register : Fin 16) : instruction? (stcs register).opcode = some .stcs ∧
    (stcs register).opcode.toNat % 16 = register := by
  revert register
  decide

end Selectors

@[simp] theorem marks_address (cmd : UInt8) (bs : List UInt8) :
    (Slot.address cmd).marks bs = [.value "updi-addr" "Addr" (valueText bs)] := rfl

@[simp] theorem marks_data (cmd : UInt8) (bs : List UInt8) :
    (Slot.data cmd).marks bs = [.value "updi-data" "Data" (valueText bs)] := rfl

@[simp] theorem marks_content (bs : List UInt8) :
    Slot.content.marks bs = [.value "updi-data" "Data" (valueText bs)] := rfl

@[simp] theorem marks_block (label : String) (length : Except DecodeError Nat) (bs : List UInt8) :
    (Slot.block label length).marks bs = [.value "updi-data" label (Numeral.hexBytes bs)] := rfl

@[simp] theorem inRow_ack (ack : UInt8) :
    Mark.inRow "warnings" (Slot.ack.marks [ack]) = (ackWarnings ack).map ([·]) := by
  by_cases h : ack = 0x40
  · simp [Slot.ack, ackWarnings, h]
  · simp [Slot.ack, ackWarnings, h, Numeral.hexBytes_singleton]

@[simp] theorem inRow_ack_updi (ack : UInt8) : Mark.inRow "updi" (Slot.ack.marks [ack]) = [] := by
  by_cases h : ack = 0x40 <;> simp [Slot.ack, h]

theorem fits_lds (address data : Width) :
    (lds address data).Fits (Format.lds (lds address data).opcode) := by
  obtain ⟨_, hhigh, hlow⟩ := lds_opcode address data
  constructor
  · rintro ⟨addr, bytes⟩
    simp [Format.lds, Slot.address, Slot.data, hhigh, hlow, Width.length_value]
  · rintro first ⟨addr, bytes⟩
    cases first <;> simp [Format.lds]
  · rintro first ⟨addr, bytes⟩
    simp [Format.lds]

theorem fits_ld (increment : Bool) (data : Width) :
    (ld increment data).Fits (Format.ld (ld increment data).opcode) := by
  obtain ⟨_, hhigh, hlow⟩ := ld_opcode data increment
  have hpointer : ["[P]", "[P+]"][highSelector (ld increment data).opcode]? =
      some (loadPointer increment).text := by
    rw [hhigh]
    cases increment <;> rfl
  constructor
  · intro (bytes : Bytes data.length)
    simp [Format.ld, Slot.data, hlow, Width.length_value]
  · intro first bytes
    cases first <;> simp [Format.ld, hpointer]
  · intro first bytes
    cases first <;> simp [Format.ld, hpointer]

theorem fits_sts (address data : Width) :
    (sts address data).Fits (Format.sts (sts address data).opcode) := by
  obtain ⟨_, hhigh, hlow⟩ := sts_opcode address data
  constructor
  · rintro ⟨addr, ack, bytes, ack'⟩
    simp [Format.sts, Slot.address, Slot.data, Slot.ack, hhigh, hlow, Width.length_value]
  · rintro first ⟨addr, ack, bytes, ack'⟩
    cases first <;> simp [Format.sts]
  · rintro first ⟨addr, ack, bytes, ack'⟩
    simp [Format.sts]

theorem fits_st (pointer : Pointer) (data : Width) :
    (st pointer data).Fits (Format.st (st pointer data).opcode) := by
  obtain ⟨_, hhigh, hlow⟩ := st_opcode pointer data
  have hpointer : ["[P]", "[P+]", "P"][highSelector (st pointer data).opcode]? =
      some pointer.text := by
    rw [hhigh]
    cases pointer <;> rfl
  constructor
  · rintro ⟨bytes, ack⟩
    simp [Format.st, Slot.data, Slot.ack, hlow, hpointer, Width.length_value]
  · rintro first ⟨bytes, ack⟩
    cases first <;> simp [Format.st, hpointer]
  · rintro first ⟨bytes, ack⟩
    cases first <;> simp [Format.st, hpointer]

theorem valueText_singleton (b : UInt8) : valueText [b] = Numeral.hexByte b :=
  Numeral.hexBytes_singleton b

theorem fits_ldcs (register : Fin 16) :
    (ldcs register).Fits (Format.ldcs (ldcs register).opcode) := by
  have hregister : Format.register (ldcs register).opcode = registerText register := by
    rw [Format.register, (ldcs_opcode register).2, registerText]
  constructor
  · intro content
    rfl
  · intro first (content : UInt8)
    cases first <;> simp [Format.ldcs, hregister, valueText_singleton]
  · intro first content
    simp [Format.ldcs]

theorem fits_stcs (register : Fin 16) :
    (stcs register).Fits (Format.stcs (stcs register).opcode) := by
  have hregister : Format.register (stcs register).opcode = registerText register := by
    rw [Format.register, (stcs_opcode register).2, registerText]
  constructor
  · intro content
    rfl
  · intro first (content : UInt8)
    cases first <;> simp [Format.stcs, hregister, valueText_singleton]
  · intro first content
    simp [Format.stcs]

theorem fits_key (size : Width) : (key size).Fits (Format.key (key size).opcode) := by
  constructor
  · intro (bytes : Bytes (8 * size.length))
    cases size <;> simp [Format.key, Slot.block] <;> rfl
  · intro first bytes
    cases first <;> simp [Format.key]
  · intro first bytes
    simp [Format.key]

theorem fits_readSib : readSib.Fits Format.readSib := by
  constructor
  · intro (bytes : Bytes 16)
    simp [Format.readSib, Slot.block]
  · intro first (bytes : Bytes 16)
    cases hparse : SystemInfo.parse bytes.toList <;> cases first <;> simp [Format.readSib, hparse]
  · intro first (bytes : Bytes 16)
    cases hparse : SystemInfo.parse bytes.toList <;> simp [Format.readSib, hparse]

/-- Every instruction is one of the byte grammar. -/
theorem exists_format (i : Instruction) : ∃ op f, instruction? i.opcode = some op ∧
    Format.of i.opcode op = some f ∧ i.Fits f := by
  cases i with
  | lds address data => exact ⟨.lds, _, (lds_opcode address data).1, rfl, fits_lds _ _⟩
  | ld increment data => exact ⟨.ld, _, (ld_opcode data increment).1, rfl, fits_ld _ _⟩
  | sts address data => exact ⟨.sts, _, (sts_opcode address data).1, rfl, fits_sts _ _⟩
  | st pointer data => exact ⟨.st, _, (st_opcode pointer data).1, rfl, fits_st _ _⟩
  | ldcs register => exact ⟨.ldcs, _, (ldcs_opcode register).1, rfl, fits_ldcs register⟩
  | stcs register => exact ⟨.stcs, _, (stcs_opcode register).1, rfl, fits_stcs register⟩
  | key size => exact ⟨.key, _, by cases size <;> rfl, rfl, fits_key size⟩
  | readSib => exact ⟨.readSib, _, rfl, rfl, fits_readSib⟩

end Instruction

/-! ## Commands -/

/-- A command as a host means it.  A REPEAT has a count of one or two bytes, and behind a sync of
its own an instruction with one payload more than the count says. -/
inductive Command where
  | single (i : Instruction) (x : i.Payload)
  | repeated (size : Width) (count : Bytes size.length) (i : Instruction) (first : i.Payload)
      (rest : Vector i.Payload (littleEndian count.toList))

namespace Command

def symbols : Command → List Symbol
  | single i x => .sync :: .byte i.opcode :: i.symbols x
  | repeated size count i first rest =>
    .sync :: .byte (0xA0 + size.selector) :: (count.toList.map .byte ++
      .sync :: .byte i.opcode :: (i.symbols first ++ rest.toList.flatMap i.symbols))

/-- The texts of a command, from the longest to the shortest for each of its lines. -/
def renderings : Command → List (List String)
  | single i x => [i.rendering x]
  | repeated _ count i first rest =>
    [s!"REPEAT {littleEndian count.toList}", "REPEAT"] :: i.rendering first ::
      rest.toList.map i.again

def warnings : Command → List String
  | single i x => i.warnings x
  | repeated _ _ i first rest => i.warnings first ++ rest.toList.flatMap i.warnings

theorem takes_rounds {i : Instruction} {f : Format} (h : i.Fits f) (xs : List i.Payload) :
    ∃ ms, (Grammar.times xs.length (Grammar.payload f false)).Takes (xs.flatMap i.symbols) () ms ∧
      Mark.inRow "updi" ms = xs.map i.again ∧
      Mark.inRow "warnings" ms = (xs.flatMap i.warnings).map ([·]) := by
  induction xs with
  | nil => exact ⟨[], .done (), rfl, rfl⟩
  | cons x xs ih =>
    obtain ⟨ms, htakes, hupdi, hwarnings⟩ := ih
    refine ⟨_, (Grammar.Takes.payload false (h.lengths x)).bind htakes, ?_, ?_⟩
    · rw [Mark.inRow_append, h.updi, hupdi]
      rfl
    · rw [Mark.inRow_append, h.warnings, hwarnings, List.flatMap_cons, List.map_append]

/-- The grammar takes what stands behind the second sync of a REPEAT. -/
theorem takes_repeated (i : Instruction) (first : i.Payload) (rest : List i.Payload) :
    ∃ ms, (Grammar.repeated rest.length i.opcode).Takes
        (i.symbols first ++ rest.flatMap i.symbols) () ms ∧
      Mark.inRow "updi" ms = i.rendering first :: rest.map i.again ∧
      Mark.inRow "warnings" ms = (i.warnings first ++ rest.flatMap i.warnings).map ([·]) := by
  obtain ⟨op, f, hop, hf, hfits⟩ := i.exists_format
  obtain ⟨ms, htakes, hupdi, hwarnings⟩ := takes_rounds hfits rest
  refine ⟨.opcode op.mnemonic :: (Grammar.payloadMarks f true (i.operands first) ++ ms),
    ?_, ?_, ?_⟩
  · unfold Grammar.repeated
    rw [hop]
    dsimp only
    rw [hf]
    exact Grammar.Takes.say_then ((Grammar.Takes.payload true (hfits.lengths first)).bind htakes)
  · rw [Mark.inRow_opcode, Mark.inRow_append, hfits.updi, hupdi]
    rfl
  · rw [Mark.inRow_opcode, Mark.inRow_append, hfits.warnings, hwarnings, List.map_append]
    rfl

theorem takes_repeats (size : Width) (count : Bytes size.length) (i : Instruction)
    (first : i.Payload) (rest : Vector i.Payload (littleEndian count.toList)) :
    ∃ ms, (Grammar.repeats (0xA0 + size.selector)).Takes
        (count.toList.map .byte ++
          .sync :: .byte i.opcode :: (i.symbols first ++ rest.toList.flatMap i.symbols)) () ms ∧
      Mark.inRow "updi" ms = [s!"REPEAT {littleEndian count.toList}", "REPEAT"] ::
        i.rendering first :: rest.toList.map i.again ∧
      Mark.inRow "warnings" ms =
        (i.warnings first ++ rest.toList.flatMap i.warnings).map ([·]) := by
  obtain ⟨ms, htakes, hupdi, hwarnings⟩ := takes_repeated i first rest.toList
  rw [Vector.length_toList] at htakes
  have hselector : lowSelector (0xA0 + size.selector) = size.selector.toNat := by
    cases size <;> rfl
  have hlength : (Slot.value "updi-data" "Count" (lowSelector (0xA0 + size.selector))).length =
      .ok count.toList.length := by
    rw [hselector, Width.length_value, Vector.length_toList]
  refine ⟨_, (Grammar.Takes.slot hlength).bind
    (.say_then (.resync (Grammar.Takes.next_then htakes))), ?_, ?_⟩
  · rw [Mark.inRow_append, Mark.inRow_append, hupdi]
    rfl
  · rw [Mark.inRow_append, Mark.inRow_append, hwarnings]
    rfl

/-- **The grammar takes every command** and renders it again. -/
theorem takes (c : Command) : ∃ xs ms, c.symbols = .sync :: xs ∧
    Grammar.command.Takes xs () ms ∧ Mark.inRow "updi" ms = c.renderings ∧
    Mark.inRow "warnings" ms = c.warnings.map ([·]) := by
  cases c with
  | single i x =>
    obtain ⟨op, f, hop, hf, hfits⟩ := i.exists_format
    refine ⟨_, .opcode op.mnemonic :: Grammar.payloadMarks f true (i.operands x), rfl,
      Grammar.Takes.next_then ?_, ?_, ?_⟩
    · rw [hop]
      dsimp only
      rw [hf]
      exact Grammar.Takes.say_then (.payload true (hfits.lengths x))
    · rw [Mark.inRow_opcode, hfits.updi]
      rfl
    · rw [Mark.inRow_opcode, hfits.warnings]
      rfl
  | repeated size count i first rest =>
    obtain ⟨ms, htakes, hupdi, hwarnings⟩ := takes_repeats size count i first rest
    have hop : instruction? (0xA0 + size.selector) = some .repeats := by cases size <;> rfl
    refine ⟨_, .opcode Opcode.repeats.mnemonic :: ms, rfl, ?_, ?_, ?_⟩
    · apply Grammar.Takes.next_then
      rw [hop]
      exact Grammar.Takes.say_then htakes
    · rw [Mark.inRow_opcode, hupdi]
      rfl
    · rw [Mark.inRow_opcode, hwarnings]
      rfl

example : (Command.repeated .byte #v[0x01] (.st .increment .byte) (#v[0xAA], 0x40)
    #v[(#v[0xBB], 0x41)]).renderings =
      [["REPEAT 1", "REPEAT"], ["ST [P+], AA", "ST"], ["..., BB", "BB"]] := by
  decide +kernel

end Command

end Updi

end BusDecode
