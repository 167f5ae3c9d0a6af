import BusDecode.Proofs.Hvsp.Likeness
import BusDecode.Proofs.Numeral
import BusDecode.Proofs.Telling

/-!
# Registers as the annotations have loaded them

The registers of the device are read off the annotations alone: each of their four bytes is the
operand of the last annotation that loads it, and the command is the one that the last annotation
about commands names.  A reader of annotations who goes by their texts so knows the registers at
every point of a run (`decode_context`).  Texts of other annotations begin differently and are no
loads, so bits, words and the remaining warnings change nothing (`Loaded.quiet`).
-/

set_option autoImplicit false

namespace BusDecode

namespace Hvsp

/-! ## Reading annotations -/

/-- A byte of the registers that an instruction of its own loads. -/
inductive Half where
  | addressLow
  | addressHigh
  | valueLow
  | valueHigh
  deriving DecidableEq, Repr

namespace Half

/-- The instruction that loads a byte. -/
def mnemonic : Half → String
  | addressLow => "LLA"
  | addressHigh => "LHA"
  | valueLow => "LLD"
  | valueHigh => "LHD"

/-- The byte in the registers. -/
def held (c : Context) : Half → Nat
  | addressLow => c.address.toNat % 256
  | addressHigh => c.address.toNat / 256
  | valueLow => c.value.toNat % 256
  | valueHigh => c.value.toNat / 256

end Half

/-- The byte that a text shows in hexadecimal behind a mnemonic. -/
def operand? (mnemonic text : String) : Option Nat :=
  (List.range 256).find? fun n => text = mnemonic ++ " " ++ Numeral.hex 2 n

/-- The command that a text names, or that it names none. -/
def command? (text : String) : Option (Option Command) :=
  if text = "CMD unknown" then some none
  else (Command.all.find? fun c => text = "CMD " ++ c.mnemonic).map some

/-- The byte loaded last. -/
def lastOperand (half : Half) (xs : List Annotation) : Option Nat :=
  (xs.filterMap fun a => operand? half.mnemonic a.text).getLast?

/-- The command named last, if it was one. -/
def lastCommand (xs : List Annotation) : Option (Option Command) :=
  (xs.filterMap fun a => command? a.text).getLast?

/-- The registers hold what annotations have loaded last, and without one what they held before. -/
structure Context.Loaded (before : Context) (xs : List Annotation) (c : Context) : Prop where
  held : ∀ half : Half, half.held c = (lastOperand half xs).getD (half.held before)
  command : c.command = (lastCommand xs).getD before.command

theorem lastOperand_append (half : Half) (xs ys : List Annotation) :
    lastOperand half (xs ++ ys) = (lastOperand half ys).or (lastOperand half xs) := by
  rw [lastOperand, List.filterMap_append, List.getLast?_append]
  rfl

theorem lastCommand_append (xs ys : List Annotation) :
    lastCommand (xs ++ ys) = (lastCommand ys).or (lastCommand xs) := by
  rw [lastCommand, List.filterMap_append, List.getLast?_append]
  rfl

theorem lastOperand_singleton (half : Half) (a : Annotation) :
    lastOperand half [a] = operand? half.mnemonic a.text := by
  cases h : operand? half.mnemonic a.text <;> simp [lastOperand, h]

theorem lastCommand_singleton (a : Annotation) : lastCommand [a] = command? a.text := by
  cases h : command? a.text <;> simp [lastCommand, h]

/-! ## Texts -/

/-- The mnemonics of everything that loads something. -/
def mnemonics : List String :=
  ["LLA", "LHA", "LLD", "LHD", "CMD"]

/-- A text begins with a mnemonic and a blank. -/
abbrev Begins (mnemonic text : String) : Prop :=
  (mnemonic ++ " ").toList <+: text.toList

/-- A text that begins with no mnemonic. -/
abbrev IsQuiet (text : String) : Prop :=
  ∀ mnemonic ∈ mnemonics, ¬Begins mnemonic text

theorem length_mnemonic {mnemonic : String} (h : mnemonic ∈ mnemonics) :
    (mnemonic ++ " ").toList.length = 4 := by
  have hfour : ∀ m ∈ mnemonics, (m ++ " ").toList.length = 4 := by decide
  exact hfour mnemonic h

/-- The first four characters decide. -/
theorem Begins.of_append {mnemonic start rest : String} (hmnemonic : mnemonic ∈ mnemonics)
    (hlength : 4 ≤ start.toList.length) (h : Begins mnemonic (start ++ rest)) :
    Begins mnemonic start := by
  apply List.prefix_of_prefix_length_le h
  · rw [String.toList_append]
    exact List.prefix_append _ _
  · rwa [length_mnemonic hmnemonic]

theorem IsQuiet.append {start : String} (h : IsQuiet start) (hlength : 4 ≤ start.toList.length)
    (rest : String) : IsQuiet (start ++ rest) := by
  intro mnemonic hmnemonic hbegins
  exact h mnemonic hmnemonic (hbegins.of_append hmnemonic hlength)

theorem isQuiet_of_length {text : String} (h : text.toList.length < 4) : IsQuiet text := by
  intro mnemonic hmnemonic hbegins
  have hlength := hbegins.length_le
  rw [length_mnemonic hmnemonic] at hlength
  omega

theorem isQuiet_hexByte (b : UInt8) : IsQuiet (Numeral.hexByte b) := by
  apply isQuiet_of_length
  rw [Numeral.hexByte_eq]
  simp

theorem isQuiet_control {position : Nat} {line : ControlLine}
    (h : controlLine? position = some line) (level : Bool) : IsQuiet (line.text level) := by
  have hlines : ∀ line ∈ controlLines, ∀ level, IsQuiet (line.text level) := by decide
  unfold controlLine? at h
  split at h
  · cases h
  · exact hlines line (List.mem_of_getElem? h) level

/-- A text that does not begin with a mnemonic shows no operand of it. -/
theorem operand?_eq_none {mnemonic text : String} (h : ¬Begins mnemonic text) :
    operand? mnemonic text = none := by
  rw [operand?, List.find?_eq_none]
  intro n _ htext
  apply h
  rw [of_decide_eq_true htext]
  exact ⟨_, String.toList_append.symm⟩

theorem command?_eq_none {text : String} (h : ¬Begins "CMD" text) : command? text = none := by
  have hunknown : text ≠ "CMD unknown" := by
    intro htext
    apply h
    rw [htext]
    decide
  rw [command?, if_neg hunknown, Option.map_eq_none_iff, List.find?_eq_none]
  intro c _ htext
  apply h
  rw [of_decide_eq_true htext]
  exact ⟨_, String.toList_append.symm⟩

/-- Two hexadecimal digits tell bytes apart. -/
theorem hexByte_inj {b b' : UInt8} (h : Numeral.hexByte b = Numeral.hexByte b') : b = b' := by
  have hdigit : ∀ i < 16, ∀ j < 16, i.digitChar.toUpper = j.digitChar.toUpper → i = j := by decide
  have hb : b.toNat < 256 := b.toNat_lt
  have hb' : b'.toNat < 256 := b'.toNat_lt
  rw [Numeral.hexByte_eq, Numeral.hexByte_eq, String.ofList_inj] at h
  simp only [List.cons.injEq, and_true] at h
  have hhigh := hdigit _ (by omega) _ (by omega) h.1
  have hlow := hdigit _ (by omega) _ (by omega) h.2
  exact UInt8.toNat_inj.1 (by omega)

/-- The text of a load shows its operand. -/
theorem operand?_load (mnemonic : String) (b : UInt8) :
    operand? mnemonic (mnemonic ++ " " ++ Numeral.hexByte b) = some b.toNat := by
  rw [operand?, List.find?_range_eq_some]
  refine ⟨by simp [Numeral.hexByte], List.mem_range.2 b.toNat_lt, ?_⟩
  intro n hn
  have hlt : n < 256 := Nat.lt_trans hn b.toNat_lt
  have hnat : (UInt8.ofNat n).toNat = n := Nat.mod_eq_of_lt hlt
  rw [Bool.not_eq_true', decide_eq_false_iff_not]
  intro htext
  have hhex : Numeral.hexByte b = Numeral.hexByte (UInt8.ofNat n) := by
    rw [Numeral.hexByte, Numeral.hexByte, hnat]
    exact (String.append_right_inj _).1 htext
  rw [hexByte_inj hhex, hnat] at hn
  exact Nat.lt_irrefl n hn

theorem command?_name (c : Command) : command? ("CMD " ++ c.mnemonic) = some (some c) := by
  cases c <;> decide

/-! ## Loads -/

namespace Context.Loaded

variable {c c' c'' : Context} {xs ys : List Annotation} {a : Annotation}

theorem refl (c : Context) : c.Loaded [] c where
  held _ := rfl
  command := rfl

theorem trans (h : c.Loaded xs c') (h' : c'.Loaded ys c'') : c.Loaded (xs ++ ys) c'' where
  held half := by
    rw [h'.held, h.held, lastOperand_append]
    cases lastOperand half ys <;> rfl
  command := by
    rw [h'.command, h.command, lastCommand_append]
    cases lastCommand ys <;> rfl

/-- A single annotation loads what its text shows. -/
theorem singleton (held : ∀ half : Half,
      half.held c' = (operand? half.mnemonic a.text).getD (half.held c))
    (command : c'.command = (command? a.text).getD c.command) : c.Loaded [a] c' where
  held half := by rw [lastOperand_singleton, held]
  command := by rw [lastCommand_singleton, command]

end Context.Loaded

/-- A quiet annotation loads nothing. -/
theorem Context.Loaded.quiet (c : Context) {a : Annotation} (h : IsQuiet a.text) :
    c.Loaded [a] c := by
  apply Context.Loaded.singleton
  · intro half
    have hnone : operand? half.mnemonic a.text = none := by
      apply operand?_eq_none
      cases half <;> exact h _ (by decide)
    rw [hnone]
    rfl
  · rw [command?_eq_none (h "CMD" (by decide))]
    rfl

instance : Script.Chained fun (d : Decoder) xs (d' : Decoder) => d.context.Loaded xs d'.context where
  refl d := .refl d.context
  trans h h' := h.trans h'

/-! ## Instructions -/

/-- Masking out the low byte. -/
theorem and_high_byte (n : Nat) (h : n < 2 ^ 16) : n &&& (2 ^ 8 - 1) <<< 8 = 256 * (n / 256) := by
  have hrest : 256 * (n / 256) = n >>> 8 <<< 8 := by
    rw [Nat.shiftLeft_eq, Nat.shiftRight_eq_div_pow, Nat.mul_comm]
  rw [hrest]
  apply Nat.eq_of_testBit_eq
  intro i
  rw [Nat.testBit_and, Nat.testBit_shiftLeft, Nat.testBit_two_pow_sub_one, Nat.testBit_shiftLeft,
    Nat.testBit_shiftRight]
  by_cases hi : 8 ≤ i
  · rw [Nat.add_sub_cancel' hi]
    by_cases hi' : i < 16
    · simp [hi]
      omega
    · have hbit : n.testBit i = false :=
        Nat.testBit_lt_two_pow (Nat.lt_of_lt_of_le h (Nat.pow_le_pow_right (by decide) (by omega)))
      simp [hbit]
  · simp [hi]

theorem setLow_toNat (w : UInt16) (b : UInt8) :
    (Bits.setLow w b).toNat = b.toNat + 256 * (w.toNat / 256) := by
  have hb : b.toNat < 2 ^ 8 := b.toNat_lt
  rw [Bits.setLow, UInt16.toNat_or, UInt16.toNat_and]
  change w.toNat &&& (2 ^ 8 - 1) <<< 8 ||| b.toNat = _
  rw [and_high_byte _ w.toNat_lt, ← Nat.two_pow_add_eq_or_of_lt hb, Nat.add_comm]

theorem setHigh_toNat (w : UInt16) (b : UInt8) :
    (Bits.setHigh w b).toNat = w.toNat % 256 + 256 * b.toNat := by
  have hlow : w &&& 0x00FF = w.toUInt8.toUInt16 := by
    rw [← UInt16.toNat_inj, UInt16.toNat_and]
    change w.toNat &&& 2 ^ 8 - 1 = w.toNat % 2 ^ 8
    exact Nat.and_two_pow_sub_one_eq_mod _ 8
  rw [Bits.setHigh, hlow]
  exact Numeral.word_toNat w.toUInt8 b

/-- The instruction that loads a byte. -/
def Half.load : Half → UInt8 → Operation
  | addressLow => .loadAddressLow
  | addressHigh => .loadAddressHigh
  | valueLow => .loadDataLow
  | valueHigh => .loadDataHigh

theorem text_load (half : Half) (b : UInt8) :
    (half.load b).text = half.mnemonic ++ " " ++ Numeral.hexByte b := by
  cases half <;> rfl

/-- A load replaces one of the four bytes. -/
theorem held_apply_load (c : Context) (half half' : Half) (b : UInt8) :
    half'.held (c.apply (half.load b)) = if half' = half then b.toNat else half'.held c := by
  have hb : b.toNat < 256 := b.toNat_lt
  cases half <;> cases half' <;>
    simp only [Half.held, Half.load, Context.apply, setLow_toNat, setHigh_toNat, reduceCtorEq,
      if_true, if_false] <;> omega

/-- A load does not begin like another one. -/
theorem not_begins_load {half : Half} {mnemonic : String} (hmnemonic : mnemonic ∈ mnemonics)
    (hne : mnemonic ≠ half.mnemonic) (b : UInt8) : ¬Begins mnemonic (half.load b).text := by
  rw [text_load]
  intro hbegins
  have hstart : Begins mnemonic (half.mnemonic ++ " ") := by
    apply hbegins.of_append hmnemonic
    cases half <;> decide
  have hother : ∀ m ∈ mnemonics, ∀ half : Half, Begins m (half.mnemonic ++ " ") →
      m = half.mnemonic := by
    intro m hm half
    cases half <;> revert m <;> decide
  exact hne (hother mnemonic hmnemonic half hstart)

theorem loaded_load (c : Context) (half : Half) (b : UInt8) (start stop : Nat) :
    c.Loaded [⟨.command, "instr", start, stop, [(half.load b).text]⟩] (c.apply (half.load b)) := by
  apply Context.Loaded.singleton
  · intro half'
    change _ = (operand? half'.mnemonic (half.load b).text).getD _
    rw [held_apply_load]
    by_cases h : half' = half
    · subst h
      rw [if_pos rfl, text_load, operand?_load]
      rfl
    · have hne : half'.mnemonic ≠ half.mnemonic := by
        revert h
        cases half <;> cases half' <;> decide
      have hmem : half'.mnemonic ∈ mnemonics := by cases half' <;> decide
      rw [if_neg h, operand?_eq_none (not_begins_load hmem hne b)]
      rfl
  · have hcommand : "CMD" ≠ half.mnemonic := by cases half <;> decide
    change _ = (command? (half.load b).text).getD _
    rw [command?_eq_none (not_begins_load (by decide) hcommand b)]
    cases half <;> rfl

/-- A text about commands shows no operand. -/
theorem operand?_command (half : Half) (rest : String) :
    operand? half.mnemonic ("CMD " ++ rest) = none := by
  apply operand?_eq_none
  have hmem : half.mnemonic ∈ mnemonics := by cases half <;> decide
  intro hbegins
  have hstart := hbegins.of_append hmem (by decide)
  cases half <;> exact absurd hstart (by decide)

/-- **An operation** loads what its text says. -/
theorem loaded_operation (c : Context) (operation : Operation) (start stop : Nat) :
    c.Loaded [⟨.command, "instr", start, stop, [operation.text]⟩] (c.apply operation) := by
  cases operation with
  | loadAddressLow b => exact loaded_load c .addressLow b start stop
  | loadAddressHigh b => exact loaded_load c .addressHigh b start stop
  | loadDataLow b => exact loaded_load c .valueLow b start stop
  | loadDataHigh b => exact loaded_load c .valueHigh b start stop
  | loadCommand command =>
    apply Context.Loaded.singleton
    · intro half
      change _ = (operand? half.mnemonic ("CMD " ++ command.mnemonic)).getD _
      rw [operand?_command]
      cases half <;> rfl
    · change _ = (command? ("CMD " ++ command.mnemonic)).getD _
      rw [command?_name]
      rfl

/-- **A fault** loads nothing, but for a command that is not known. -/
theorem loaded_fault (c : Context) (fault : Fault) (start stop : Nat) :
    c.Loaded [.warning start stop fault.message] (c.applyFault fault) := by
  have hstrobes : IsQuiet "Invalid " := by decide
  have haddress : IsQuiet "LA invalid BS=" := by decide
  have hdata : IsQuiet "LD invalid BS=" := by decide
  cases fault with
  | strobes names => exact .quiet c (hstrobes.append (by decide) names)
  | addressSelect bs => exact .quiet c (haddress.append (by decide) (toString bs))
  | dataSelect bs => exact .quiet c (hdata.append (by decide) (toString bs))
  | commandSelect => exact .quiet c (by decide : IsQuiet "Invalid BS")
  | unknownCommand code =>
    apply Context.Loaded.singleton
    · intro half
      change _ = (operand? half.mnemonic ("CMD " ++ "unknown")).getD _
      rw [operand?_command]
      cases half <;> rfl
    · rfl
  | strobeAction => exact .quiet c (by decide : IsQuiet "XA=3 not handled")

namespace Decoder

variable {ε : Type}

/-- The registers are as the annotations have loaded them. -/
abbrev Loads (d : Decoder) (xs : List Annotation) (d' : Decoder) : Prop :=
  d.context.Loaded xs d'.context

theorem run_tellFault (fault : Fault) (d : Decoder) :
    ∃ told : List Event,
      (tellFault fault : Handling ε Unit).run d = ⟨.ok (), d, told.map .note⟩ := by
  cases fault with
  | strobes names => exact ⟨[_], rfl⟩
  | unknownCommand code => exact ⟨[_], rfl⟩
  | _ => exact ⟨[], rfl⟩

/-- The registers change before the annotation of the instruction is handed on. -/
theorem tells_interpretFrame (start stop : Nat) :
    Script.Tells Loads (interpretFrame start stop : Handling ε Unit) := by
  apply Script.Tells.of_last
  intro d
  cases hresult : Operation.interpret d.siiWord d.sdiWord with
  | ok operation =>
    refine ⟨.ok (), { d with
      instructions := d.instructions + 1, context := d.context.apply operation }, _,
      [.told d.name .trace operation.text], ?_, loaded_operation d.context operation start stop⟩
    simp [interpretFrame, Script.run_bind, hresult, Trace.after]
  | error fault =>
    obtain ⟨told, htold⟩ :=
      run_tellFault (ε := ε) fault { d with instructions := d.instructions + 1 }
    refine ⟨.ok (), { d with
      instructions := d.instructions + 1, context := d.context.applyFault fault }, _,
      told, ?_, loaded_fault d.context fault start stop⟩
    simp [interpretFrame, Script.run_bind, hresult, htold, Trace.after]

/-! ## Edges -/

/-- A change of anything but the registers. -/
theorem tells_modify {f : Decoder → Decoder} (h : ∀ d, (f d).context = d.context) :
    Script.Tells Loads (Script.modify f : Handling ε Unit) := by
  apply Script.Tells.modify
  intro d
  rw [Loads, h]
  exact .refl d.context

theorem tells_emit {f : Decoder → Annotation} (h : ∀ d, IsQuiet (f d).text) :
    Script.Tells Loads (Script.emit f : Handling ε Unit) :=
  .emit fun d => .quiet d.context (h d)

theorem tells_putBit (row : String) (start stop : Nat) (level : Decoder → Bool) :
    Script.Tells Loads (putBit row start stop level : Handling ε Unit) := by
  apply tells_emit
  intro d
  change IsQuiet (if level d then "1" else "0")
  split <;> decide

theorem tells_putWord (row : String) (start : Decoder → Nat) (stop : Nat) (word : Decoder → UInt8) :
    Script.Tells Loads (putWord row start stop word : Handling ε Unit) :=
  tells_emit fun d => isQuiet_hexByte (word d)

theorem tells_putControl (position start stop : Nat) :
    Script.Tells Loads (putControl position start stop : Handling ε Unit) := by
  unfold putControl
  split
  · rename_i line hline
    exact tells_emit fun d => isQuiet_control hline d.siiLevel
  · exact .answer ()

theorem tells_outputBit (position start now : Nat) :
    Script.Tells Loads (outputBit position start now : Handling ε Unit) := by
  refine .bind (tells_putBit _ _ _ _) fun _ => ?_
  refine .bind (tells_modify fun d => by split <;> rfl) fun _ => ?_
  refine .bind (tells_modify fun d => rfl) fun _ => ?_
  exact .onlyIf (.bind (.note _) fun _ => tells_putWord _ _ _ _)

theorem tells_rise (v : PinVector) (position : Nat) :
    Script.Tells Loads (rise v position : Handling ε Unit) := by
  refine .bind (.read _) fun start => ?_
  refine .bind (tells_modify fun d => rfl) fun _ => ?_
  exact .onlyIf (tells_outputBit _ _ _)

theorem tells_inputBits (position start now : Nat) :
    Script.Tells Loads (inputBits position start now : Handling ε Unit) := by
  refine .bind (tells_putControl _ _ _) fun _ => ?_
  refine .bind (tells_putBit _ _ _ _) fun _ => ?_
  refine .bind (tells_modify fun d => by split <;> rfl) fun _ => ?_
  refine .bind (tells_modify fun d => rfl) fun _ => ?_
  exact .onlyIf (.bind (.note _) fun _ =>
    .bind (tells_putWord _ _ _ _) fun _ => tells_putWord _ _ _ _)

theorem tells_fallAt (now start position : Nat) :
    Script.Tells Loads (fallAt now start position : Handling ε Unit) := by
  refine .bind (.read _) fun frame => ?_
  refine .bind (.onlyIf (tells_interpretFrame _ _)) fun _ => ?_
  exact .onlyIf (tells_inputBits _ _ _)

theorem tells_fall (v : PinVector) : Script.Tells Loads (fall v : Handling ε Unit) := by
  refine .bind (.read _) fun start => ?_
  refine .bind (tells_modify fun d => rfl) fun _ => ?_
  refine .bind (.read _) fun position => ?_
  cases position with
  | none => exact .answer ()
  | some position => exact tells_fallAt _ _ _

theorem tells_clockEdge (v : PinVector) :
    Script.Tells Loads (clockEdge v : Handling ε Unit) := by
  refine .ite ?_ (tells_fall v)
  refine .bind (.read _) fun position => ?_
  exact .bind (tells_modify fun d => rfl) fun _ => tells_rise v position

/-- **One pin vector**: the annotations it leads to account for what becomes of the registers. -/
theorem tells_feed (v : PinVector) : Script.Tells Loads (feed v : Handling ε Unit) := by
  refine .bind (.read _) fun before => .onlyIf ?_
  exact .bind (tells_modify fun d => rfl) fun _ => .onlyIf (tells_clockEdge v)

/-- Every pin vector is answered. -/
theorem answers_feed_always (v : PinVector) (d : Decoder) :
    Script.Answers (feed v : Handling ε Unit) d fun _ _ _ => True := by
  refine .bind (.read (.onlyIf (fun _ => ?_) fun _ => trivial))
  exact .bind (.modify (.onlyIf (fun _ => answers_clockEdge_always) fun _ => trivial))

end Decoder

/-- The registers of a device that was fresh to begin with, as told by annotations: every byte is
the operand shown last, or zero, and the command the one named last, or none. -/
structure Context.ToldBy (c : Context) (xs : List Annotation) : Prop where
  held : ∀ half : Half, half.held c = (lastOperand half xs).getD 0
  command : c.command = (lastCommand xs).getD none

theorem Context.Loaded.toldBy {c : Context} {xs : List Annotation}
    (h : Context.Loaded {} xs c) : c.ToldBy xs where
  held half := by
    rw [h.held]
    cases half <;> rfl
  command := h.command

/-- **The registers are what the annotations say.**  Draining any list of pin vectors into an array
ends well with the registers that the array tells of; and whenever an annotation is handed on, the
registers already are those told by the annotations up to and with it. -/
theorem decode_context (positions : Nat) (vs : List PinVector) :
    let trace := Decoder.decode.run (({ config := ⟨positions⟩ } : Decoder), vs)
    let run := trace.play (#[] : Array Annotation)
    run.result = .ok () ∧ run.state.1.context.ToldBy run.sink.toList ∧
      trace.Throughout fun items state => state.1.context.ToldBy items := by
  intro trace run
  have htells := Script.Tells.drain Decoder.tells_feed (({ config := ⟨positions⟩ } : Decoder), vs)
  have htold : trace.Throughout fun items state => state.1.context.ToldBy items :=
    htells.mono fun _ _ => Context.Loaded.toldBy
  obtain ⟨_, s, effects, hrun, _⟩ :=
    (Script.Answers.drain_all Decoder.answers_feed_always { config := ⟨positions⟩ } vs).run
  have hresult : trace.result = .ok () := congrArg Trace.result hrun
  have hplayed : run = ⟨trace.result, trace.state, #[] ++ trace.items.toArray, trace.events⟩ :=
    Trace.play_array trace #[]
  rw [hplayed]
  refine ⟨hresult, ?_, htold⟩
  simpa using htold.last

end Hvsp

end BusDecode
