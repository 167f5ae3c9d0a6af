import BusDecode.Proofs.Messages
import BusDecode.Proofs.Numeral
import BusDecode.Proofs.Updi.Dialogue

/-!
# Commands follow the byte grammar

Every reception of a command does as `Grammar.command` says, whatever the line does: each script is
matched with its part of the grammar (`Plays`), from single bytes through the slots of a payload to
a REPEAT of any count.  So a step of the decoder, on any source and in any state, hears bytes and
says just the marks the grammar has for them (`step_marks`).
-/

set_option autoImplicit false

namespace BusDecode

namespace Updi

/-! ## Scripts and parts of the grammar -/

section Playing

variable {σ : Type} [Source σ Sample] {α α' β β' : Type}

/-- From every session that has a command start iff `p`, the script follows the grammar; their
answers are related by `R`, and there is a command start at the end iff `q`. -/
def Plays (p q : Bool) (m : Reception σ Interrupt α) (g : Grammar β) (R : α → β → Prop) : Prop :=
  ∀ s : Session σ, s.commandStart.isSome = p →
    Follows (fun a b s' => R a b ∧ s'.commandStart.isSome = q) g s (m.run s)

namespace Plays

variable {p p' q : Bool} {m : Reception σ Interrupt α} {f : α → Reception σ Interrupt α'}
  {g : Grammar β} {k : β → Grammar β'} {R : α → β → Prop} {R' : α' → β' → Prop}

theorem answer {a : α} {b : β} (h : R a b) :
    Plays p p (pure a : Reception σ Interrupt α) (pure b) R :=
  fun _ hs => .done ⟨h, hs⟩

theorem bind (h : Plays p p' m g R) (hf : ∀ a b, R a b → Plays p' q (f a) (k b) R') :
    Plays p q (m >>= f) (g >>= k) R' := by
  intro s hs
  refine (h s hs).bind ?_
  rintro a b s' ⟨hR, hs'⟩
  exact hf a b hR s' hs'

/-- A script that takes no byte and says nothing. -/
theorem silently (h : Plays p p' m (pure ()) fun _ _ => True) {g : Grammar β'}
    (hf : ∀ a, Plays p' q (f a) g R') : Plays p q (m >>= f) g R' :=
  bind (k := fun _ => g) h fun a _ _ => hf a

/-- The grammar may answer in another way. -/
theorem answering {h : β → β'} {R'' : α → β' → Prop} (hm : Plays p q m g R)
    (hR : ∀ a b, R a b → R'' a (h b)) : Plays p q m (g >>= fun b => pure (h b)) R'' := by
  have hthen := hm.bind (f := pure) fun a b hab => answer (p := q) (hR a b hab)
  rwa [bind_pure] at hthen

theorem tell (severity : Severity) (message : Session σ → String) :
    Plays p p (Reception.tell severity message : Reception σ Interrupt Unit) (pure ())
      fun _ _ => True :=
  fun _ hs => .note _ (.done ⟨trivial, hs⟩)

/-- Bookkeeping is no part of the grammar. -/
theorem aside {f : Session σ → Session σ} (haside : ∀ s, Aside s (f s))
    (h : ∀ s, s.commandStart.isSome = p → (f s).commandStart.isSome = q) :
    Plays p q (Script.modify f : Reception σ Interrupt Unit) (pure ()) fun _ _ => True :=
  fun s hs => .aside (haside s) (.done ⟨trivial, h s hs⟩)

/-- An annotation is a mark. -/
theorem emit {f : Session σ → Annotation} {m : Mark} (hmark : ∀ s, mark (f s) = m)
    (hsaid : ∀ s, isSaid (f s) = true) (hrow : m.row ≠ "byte-value") :
    Plays p p (Script.emit f : Reception σ Interrupt Unit) (Grammar.sayAll [m])
      fun _ _ => True := by
  intro s hs
  have hrow' : (f s).row ≠ "byte-value" := by
    have := hmark s
    subst this
    exact hrow
  have h : Follows (fun (_ _ : Unit) s' => True ∧ s'.commandStart.isSome = p)
      (.say (mark (f s)) (.done ())) s (Trace.after [.emit (f s) s] ⟨.ok (), s, []⟩) :=
    .say (f s) (hsaid s) hrow' (.done ⟨trivial, hs⟩)
  rwa [hmark s] at h

theorem readByte :
    Plays p p (Reception.readByte : Reception σ Interrupt UInt8) Grammar.next Eq := by
  intro s hs
  have hread := Reception.readByte_ends (s := s)
  unfold Script.Ends at hread
  split at hread
  · rename_i b s' effects hr
    have h : Follows (fun a b s' => a = b ∧ s'.commandStart.isSome = p)
        Grammar.next s (Trace.after effects ⟨.ok b, s', []⟩) :=
      .byte hr (.done ⟨rfl, by rw [hread.1.commandStart, hs]⟩)
    rw [hr]
    simpa [Trace.after] using h
  · rename_i e s' effects hr
    rw [hr]
    exact .noByte _ hr

theorem times {m : Reception σ Interrupt Unit} {g : Grammar Unit}
    (h : Plays p p m g fun _ _ => True) (n : Nat) :
    Plays p p (Script.times n m) (Grammar.times n g) fun _ _ => True := by
  induction n with
  | zero =>
    rw [Script.times_zero]
    exact answer trivial
  | succ n ih =>
    rw [Script.times_succ]
    exact h.bind fun _ _ _ => ih

end Plays

/-! ## Marks -/

section Marks

variable {p : Bool}

theorem plays_putField {row : String} {texts : List String} (hrow : row ∉ ["sync", "byte-value"])
    (htexts : texts ≠ ["Frame error"]) (start : Session σ → Nat) :
    Plays p p (Reception.putField row start texts) (Grammar.sayAll [.field row texts])
      fun _ _ => True := by
  simp only [List.mem_cons, List.not_mem_nil, or_false, not_or] at hrow
  refine .emit (fun _ => rfl) (fun _ => ?_) hrow.2
  simp [isSaid, hrow.1, htexts]

theorem plays_putValue {row : String} (hrow : row ∉ ["sync", "byte-value"]) (label text : String)
    (start : Session σ → Nat) :
    Plays p p (Reception.putField row start [s!"{label}: {text}", text])
      (Grammar.sayAll [.value row label text]) fun _ _ => True :=
  plays_putField hrow (by simp) start

theorem plays_putOpcode (name : String) :
    Plays p p (Reception.putOpcode name : Reception σ Interrupt Unit)
      (Grammar.sayAll [.opcode name]) fun _ _ => True :=
  plays_putField (by decide) (by simp) _

theorem plays_putWarning {text : String} (htext : text ≠ "Frame error")
    (start : Session σ → Nat) :
    Plays p p (Reception.putWarning start text) (Grammar.sayAll [.warning text])
      fun _ _ => True := by
  refine .emit (fun _ => rfl) (fun _ => ?_) (by simp [Mark.warning])
  simp [isSaid, Annotation.warning, Annotation.warningRow, htext]

/-- A text that begins otherwise is not that of a broken frame. -/
theorem ne_frameError {text : String} (h : text.toList.head? ≠ some 'F') :
    text ≠ "Frame error" := by
  rintro rfl
  exact h rfl

theorem plays_putCommand (name operands : String) :
    Plays p p (Reception.putCommand name operands : Reception σ Interrupt Unit)
      (Grammar.sayAll [.whole name operands]) fun _ _ => True := by
  have hcount : Plays p p (Script.modify (Session.count fun c =>
      { c with commands := c.commands + 1 }) : Reception σ Interrupt Unit) (pure ())
      fun _ _ => True :=
    .aside (fun s => ⟨rfl, _, rfl⟩) fun _ h => h
  refine hcount.silently fun _ => ?_
  exact .emit (fun _ => rfl) (fun _ => by simp [isSaid]) (by simp [Mark.whole, Mark.command])

theorem plays_putContinuation (texts : List String) (htexts : texts ≠ ["Frame error"]) :
    Plays p p (Reception.putContinuation texts : Reception σ Interrupt Unit)
      (Grammar.sayAll [.command texts]) fun _ _ => True :=
  .emit (fun _ => rfl) (fun _ => by simp [isSaid, htexts]) (by simp [Mark.command])

/-- The first round is written in full, the others go on from it. -/
theorem plays_putRound (name operands again data : String) :
    Plays p p (Reception.putRound name operands again data : Reception σ Interrupt Unit)
      (Grammar.sayAll [if p then .whole name operands else .command [again, data]])
      fun _ _ => True := by
  intro s hs
  unfold Reception.putRound
  rw [Script.run_bind_ok (Script.run_read _ s), Script.after_nil]
  cases hstart : s.commandStart with
  | some start =>
    rw [hstart] at hs
    subst hs
    exact plays_putCommand name operands s (by rw [hstart])
  | none =>
    rw [hstart] at hs
    subst hs
    exact plays_putContinuation [again, data] (by simp) s (by rw [hstart])

end Marks

/-! ## Slots -/

section Slots

variable {p : Bool}

theorem plays_markValue :
    Plays p p (Reception.markValue : Reception σ Interrupt Unit) (pure ()) fun _ _ => True :=
  .aside (fun s => ⟨rfl, s.decoder.stats.commands, rfl⟩) fun _ h => h

/-- A value and the bytes it was read from. -/
structure Value.Of (v : Value) (bytes : List UInt8) : Prop where
  text : v.text = valueText bytes
  value : v.value.toNat = littleEndian bytes

theorem plays_readSized {size : Nat} (hsize : size < 2) (label : String) :
    Plays p p (Reception.readSized size label : Reception σ Interrupt Value)
      (Grammar.bytes (size + 1)) Value.Of := by
  obtain rfl | rfl : size = 0 ∨ size = 1 := by omega
  · apply Plays.readByte.bind
    rintro b _ rfl
    refine .silently plays_markValue fun _ => .answer ⟨?_, ?_⟩
    · simp [valueText, Numeral.hexBytes]
    · simp [littleEndian]
  · apply Plays.readByte.bind
    rintro low _ rfl
    refine .silently plays_markValue fun _ => Plays.readByte.bind ?_
    rintro high _ rfl
    refine .answer ⟨?_, ?_⟩
    · exact Numeral.hexWord_word low high
    · exact Numeral.word_toNat low high

/-- A value is read, then it is said. -/
theorem plays_readValue (size : Nat) {row : String} (hrow : row ∉ ["sync", "byte-value"])
    (label : String) :
    Plays p p (Reception.readValue size row label : Reception σ Interrupt Value)
      (Grammar.slot (.value row label size)) Value.Of := by
  unfold Reception.readValue Grammar.slot
  by_cases hsize : size < 2
  · simp only [Slot.value, if_pos hsize]
    refine (plays_readSized hsize label).bind ?_
    intro v bytes hv
    have hsay := plays_putValue (σ := σ) (p := p) hrow label v.text Session.valueStart
    rw [hv.text] at hsay ⊢
    exact hsay.bind fun _ _ _ => .answer hv
  · simp only [Slot.value, if_neg hsize]
    obtain ⟨n, rfl⟩ : ∃ n, size = n + 2 := ⟨size - 2, by omega⟩
    intro s hs
    exact .refuse _ s

theorem plays_readAck :
    Plays p p (Reception.readAck : Reception σ Interrupt Unit) (Grammar.slot .ack)
      fun _ _ => True := by
  unfold Reception.readAck
  apply Plays.readByte.bind
  rintro b _ rfl
  change Plays p p _ (Grammar.sayAll (Slot.ack.marks [b]) >>= fun _ => pure [b]) _
  have hfield : Plays p p (Reception.putField "updi-ack" Session.byteStart ["ACK"] :
      Reception σ Interrupt Unit) (Grammar.sayAll [.field "updi-ack" ["ACK"]])
      fun _ _ => True :=
    plays_putField (by decide) (by simp) _
  by_cases hb : b = Reception.ack
  · subst hb
    refine hfield.bind fun _ _ _ => ?_
    rw [if_pos rfl]
    exact .answer trivial
  · have hmarks : Slot.ack.marks [b] = [.field "updi-ack" ["ACK"],
        .warning s!"Expected ACK, got {Numeral.hexByte b}"] := by
      have hne : ¬[b] = [0x40] := fun h => hb (List.singleton_inj.1 h)
      simp only [Slot.ack, if_neg hne, Numeral.hexBytes_singleton]
    rw [hmarks, Grammar.sayAll_cons, bind_assoc, if_neg hb]
    refine hfield.bind fun _ _ _ => ?_
    exact (plays_putWarning (ne_frameError (by simp [toString])) _).answering fun _ _ _ => trivial

theorem plays_readRest (n : Nat) :
    Plays p p (Reception.readBlock.readRest n : Reception σ Interrupt (List UInt8))
      (Grammar.bytes n) Eq := by
  induction n with
  | zero => exact .answer rfl
  | succ n ih =>
    apply Plays.readByte.bind
    rintro b _ rfl
    apply ih.bind
    rintro bs _ rfl
    exact .answer rfl

theorem plays_readBlock (n : Nat) :
    Plays p p (Reception.readBlock n : Reception σ Interrupt (List UInt8)) (Grammar.bytes n)
      Eq := by
  cases n with
  | zero => exact .answer rfl
  | succ n =>
    apply Plays.readByte.bind
    rintro b _ rfl
    refine .silently plays_markValue fun _ => (plays_readRest n).bind ?_
    rintro bs _ rfl
    exact .answer rfl

end Slots

/-! ## Payloads -/

section Payloads

variable (first : Bool) (cmd : UInt8)

theorem addressSize_eq : addressSize cmd = highSelector cmd := by
  rw [addressSize, highSelector, UInt8.toNat_and, UInt8.toNat_shiftRight]
  exact (Nat.and_two_pow_sub_one_eq_mod _ 2).trans
    (congrArg (· % 4) (Nat.shiftRight_eq_div_pow _ 2))

theorem dataSize_eq : dataSize cmd = lowSelector cmd := by
  rw [dataSize, lowSelector, UInt8.toNat_and]
  exact Nat.and_two_pow_sub_one_eq_mod _ 2

theorem pointer_text : ["[P]", "[P+]", "P"][highSelector cmd]? =
    (Pointer.decode cmd).map Pointer.text := by
  have hlt : highSelector cmd < 4 := Nat.mod_lt _ (by decide)
  rw [Pointer.decode, addressSize_eq]
  rcases (by omega : highSelector cmd = 0 ∨ highSelector cmd = 1 ∨ highSelector cmd = 2 ∨
    highSelector cmd = 3) with h | h | h | h <;> rw [h] <;> rfl

theorem pointer_text_load : ["[P]", "[P+]"][highSelector cmd]? =
    ((Pointer.decode cmd).filter (· ≠ .register)).map Pointer.text := by
  have hlt : highSelector cmd < 4 := Nat.mod_lt _ (by decide)
  rw [Pointer.decode, addressSize_eq]
  rcases (by omega : highSelector cmd = 0 ∨ highSelector cmd = 1 ∨ highSelector cmd = 2 ∨
    highSelector cmd = 3) with h | h | h | h <;> rw [h] <;> rfl

theorem controlRegister_eq : Reception.controlRegister cmd = Format.register cmd := by
  have hcmd : (cmd &&& 0x0F).toNat = cmd.toNat % 16 := by
    rw [UInt8.toNat_and]
    exact Nat.and_two_pow_sub_one_eq_mod _ 4
  rw [Reception.controlRegister, Format.register, Numeral.hexByte, hcmd]

theorem plays_readAddress :
    Plays first first (Reception.readAddress cmd : Reception σ Interrupt Value)
      (Grammar.slot (.address cmd)) Value.Of := by
  rw [Reception.readAddress, addressSize_eq]
  exact plays_readValue _ (by decide) _

theorem plays_readData :
    Plays first first (Reception.readData (dataSize cmd) : Reception σ Interrupt Value)
      (Grammar.slot (.data cmd)) Value.Of := by
  rw [Reception.readData, dataSize_eq]
  exact plays_readValue _ (by decide) _

/-- A payload follows the format of its instruction. -/
abbrev PlaysFormat (body : Reception σ Interrupt Unit) (f : Format) : Prop :=
  Plays first first body (Grammar.payload f first) fun _ _ => True

theorem plays_lds :
    PlaysFormat first (Reception.lds cmd : Reception σ Interrupt Unit) (Format.lds cmd) := by
  unfold PlaysFormat Reception.lds Grammar.payload Format.lds
  simp only [Grammar.slots, bind_assoc, pure_bind]
  refine (plays_readAddress first cmd).bind ?_
  intro addr a haddr
  refine (plays_readData first cmd).bind ?_
  intro data d hdata
  rw [haddr.text, hdata.text]
  exact plays_putCommand _ _

theorem plays_ld :
    PlaysFormat first (Reception.ld cmd : Reception σ Interrupt Unit) (Format.ld cmd) := by
  unfold PlaysFormat Reception.ld Grammar.payload Format.ld
  simp only [Grammar.slots, bind_assoc, pure_bind]
  refine (plays_readData first cmd).bind ?_
  intro data d hdata
  rw [hdata.text, pointer_text_load, addressSize_eq]
  cases (Pointer.decode cmd).filter (· ≠ .register) with
  | some pointer => cases first <;> exact plays_putRound _ _ _ _
  | none => cases first <;> exact plays_putWarning (ne_frameError (by simp [toString])) _

theorem plays_sts :
    PlaysFormat first (Reception.sts cmd : Reception σ Interrupt Unit) (Format.sts cmd) := by
  unfold PlaysFormat Reception.sts Grammar.payload Format.sts
  simp only [Grammar.slots, bind_assoc, pure_bind]
  refine (plays_readAddress first cmd).bind ?_
  intro addr a haddr
  refine plays_readAck.bind fun _ _ _ => (plays_readData first cmd).bind ?_
  intro data d hdata
  refine plays_readAck.bind fun _ _ _ => ?_
  rw [haddr.text, hdata.text]
  exact plays_putCommand _ _

theorem plays_st :
    PlaysFormat first (Reception.st cmd : Reception σ Interrupt Unit) (Format.st cmd) := by
  unfold PlaysFormat Reception.st Grammar.payload Format.st
  rw [pointer_text]
  cases Pointer.decode cmd with
  | some pointer =>
    simp only [Option.map_some, Grammar.slots, bind_assoc, pure_bind]
    refine (plays_readData first cmd).bind ?_
    intro data d hdata
    refine plays_readAck.bind fun _ _ _ => ?_
    rw [hdata.text]
    cases first <;> exact plays_putRound _ _ _ _
  | none =>
    simp only [Option.map_none, Grammar.slots, bind_assoc, pure_bind]
    refine (plays_readData first cmd).bind ?_
    intro data d hdata
    exact plays_putWarning (ne_frameError (by simp)) _

theorem plays_ldcs :
    PlaysFormat first (Reception.ldcs cmd : Reception σ Interrupt Unit) (Format.ldcs cmd) := by
  unfold PlaysFormat Reception.ldcs Grammar.payload Format.ldcs
  simp only [Grammar.slots, bind_assoc, pure_bind]
  refine (plays_readValue 0 (by decide) _).bind ?_
  intro data d hdata
  rw [hdata.text, controlRegister_eq]
  exact plays_putCommand _ _

theorem plays_stcs :
    PlaysFormat first (Reception.stcs cmd : Reception σ Interrupt Unit) (Format.stcs cmd) := by
  unfold PlaysFormat Reception.stcs Grammar.payload Format.stcs
  simp only [Grammar.slots, bind_assoc, pure_bind]
  refine (plays_readValue 0 (by decide) _).bind ?_
  intro data d hdata
  rw [hdata.text, controlRegister_eq]
  exact plays_putCommand _ _

/-- A block is read, then it is said. -/
theorem plays_block (n : Nat) (label : String) {f : List UInt8 → Reception σ Interrupt Unit}
    {k : List UInt8 → Grammar Unit}
    (h : ∀ bytes, Plays first first (f bytes) (k bytes) fun _ _ => True) :
    Plays first first (do
        let bytes ← Reception.readBlock n
        Reception.putBlock label bytes
        f bytes)
      (Grammar.slot (.block label (.ok n)) >>= k) fun _ _ => True := by
  unfold Grammar.slot
  simp only [Slot.block, bind_assoc, pure_bind]
  refine (plays_readBlock n).bind ?_
  rintro bytes _ rfl
  exact (plays_putValue (by decide) _ _ _).bind fun _ _ _ => h bytes

theorem plays_key :
    PlaysFormat first (Reception.key cmd : Reception σ Interrupt Unit) (Format.key cmd) := by
  unfold PlaysFormat Reception.key Grammar.payload Format.key
  simp only [Grammar.slots, bind_assoc, pure_bind]
  rw [dataSize_eq]
  by_cases hsize : lowSelector cmd < 2
  · rw [if_pos hsize]
    have hlength : Reception.keyLength (lowSelector cmd) = some (8 * (lowSelector cmd + 1)) := by
      obtain h | h : lowSelector cmd = 0 ∨ lowSelector cmd = 1 := by omega
      · rw [h]
        rfl
      · rw [h]
        rfl
    rw [hlength]
    exact plays_block first _ "Key" fun bytes => plays_putCommand _ _
  · have hlength : Reception.keyLength (lowSelector cmd) = none := by
      obtain ⟨n, hn⟩ : ∃ n, lowSelector cmd = n + 2 := ⟨lowSelector cmd - 2, by omega⟩
      rw [hn]
      rfl
    rw [if_neg hsize, hlength]
    intro s hs
    exact .refuse _ s

theorem plays_readSib :
    PlaysFormat first (Reception.readSib : Reception σ Interrupt Unit) Format.readSib := by
  unfold PlaysFormat Reception.readSib Grammar.payload Format.readSib
  simp only [Grammar.slots, bind_assoc, pure_bind]
  refine plays_block first 16 "SIB" ?_
  intro bytes
  cases hparse : SystemInfo.parse bytes with
  | ok info => exact plays_putCommand _ _
  | error e =>
    have hmessage : e.message ≠ "Frame error" := by
      apply ne_frameError
      obtain ⟨rest, hrest⟩ := SystemInfo.parse_named hparse
      rw [← hrest]
      exact (by decide : some 'S' ≠ some 'F')
    refine .silently (.tell _ _) fun _ => ?_
    dsimp only
    rw [Grammar.sayAll_cons]
    exact (plays_putWarning hmessage _).bind fun _ _ _ => plays_putCommand _ _

end Payloads

/-! ## Commands -/

theorem instruction?_eq (cmd : UInt8) : instruction? cmd = Opcode.decode cmd := by
  have h : ∀ n < 256, instruction? (UInt8.ofNat n) = Opcode.decode (UInt8.ofNat n) := by
    decide +kernel
  simpa using h cmd.toNat cmd.toNat_lt

/-- An instruction has a payload that can be repeated iff it has a format, which it follows. -/
theorem plays_payload (cmd : UInt8) (op : Opcode) :
    (Reception.payload? cmd op : Option (Reception σ Interrupt Unit)) = none ∧
        Format.of cmd op = none ∨
      ∃ body f, (Reception.payload? cmd op : Option (Reception σ Interrupt Unit)) = some body ∧
        Format.of cmd op = some f ∧ ∀ first, PlaysFormat first body f := by
  cases op with
  | lds => exact .inr ⟨_, _, rfl, rfl, fun first => plays_lds first cmd⟩
  | ld => exact .inr ⟨_, _, rfl, rfl, fun first => plays_ld first cmd⟩
  | sts => exact .inr ⟨_, _, rfl, rfl, fun first => plays_sts first cmd⟩
  | st => exact .inr ⟨_, _, rfl, rfl, fun first => plays_st first cmd⟩
  | ldcs => exact .inr ⟨_, _, rfl, rfl, fun first => plays_ldcs first cmd⟩
  | repeats => exact .inl ⟨rfl, rfl⟩
  | stcs => exact .inr ⟨_, _, rfl, rfl, fun first => plays_stcs first cmd⟩
  | key => exact .inr ⟨_, _, rfl, rfl, fun first => plays_key first cmd⟩
  | readSib => exact .inr ⟨_, _, rfl, rfl, fun first => plays_readSib first⟩

theorem plays_unknownOpcode (p : Bool) (cmd : UInt8) :
    Plays p p (Reception.unknownOpcode cmd : Reception σ Interrupt Unit) (Grammar.unknown cmd)
      fun _ _ => True := by
  refine .silently (.tell _ _) fun _ => ?_
  rw [Grammar.unknown, Grammar.sayAll_cons]
  refine (plays_putOpcode _).bind fun _ _ _ => ?_
  exact plays_putWarning (ne_frameError (by simp [toString])) _

/-- A round of a repeated command leaves no command start behind. -/
theorem plays_round {first : Bool} {body : Reception σ Interrupt Unit} {f : Format}
    (h : PlaysFormat first body f) :
    Plays first false (Reception.round body) (Grammar.payload f first) fun _ _ => True := by
  have hclear : Plays first false (Script.modify fun s => { s with commandStart := none } :
      Reception σ Interrupt Unit) (pure ()) fun _ _ => True :=
    .aside (fun s => ⟨rfl, s.decoder.stats.commands, rfl⟩) fun _ _ => rfl
  have hround := Plays.bind (k := pure) h fun _ _ _ => hclear
  rwa [bind_pure] at hround

/-- A run that follows a grammar, whatever it answers. -/
abbrev Along {α β : Type} (g : Grammar β) (s : Session σ)
    (t : Trace (Session σ) Annotation Interrupt α) : Prop :=
  Follows (fun _ _ _ => True) g s t

theorem Plays.along {p q : Bool} {m : Reception σ Interrupt α} {g : Grammar β}
    {R : α → β → Prop} (h : Plays p q m g R) {s : Session σ} (hs : s.commandStart.isSome = p) :
    Along g s (m.run s) :=
  (h s hs).mono fun _ _ _ _ => trivial

theorem follows_repeated (count : Nat) (cmd : UInt8) {s : Session σ}
    (hs : s.commandStart.isSome = true) :
    Along (Grammar.repeated count cmd) s
      ((Reception.repeated count cmd : Reception σ Interrupt Unit).run s) := by
  unfold Reception.repeated Grammar.repeated
  rw [instruction?_eq]
  cases Opcode.decode cmd with
  | none => exact (plays_unknownOpcode true cmd).along hs
  | some op =>
    dsimp only
    rcases plays_payload (σ := σ) cmd op with ⟨hbody, hf⟩ | ⟨body, f, hbody, hf, hplays⟩
    · rw [hbody, hf]
      have hnested : Plays true true (do
          Reception.tell .debug fun _ => "Nested REPEAT"
          Reception.putOpcode "REPEAT!"
          Reception.putWarning Session.byteStart "REPEAT cannot be repeated" :
            Reception σ Interrupt Unit)
          (Grammar.sayAll [.opcode "REPEAT!", .warning "REPEAT cannot be repeated"])
          fun _ _ => True := by
        refine .silently (.tell _ _) fun _ => ?_
        rw [Grammar.sayAll_cons]
        refine (plays_putOpcode _).bind fun _ _ _ => ?_
        exact plays_putWarning (ne_frameError (by simp)) _
      exact hnested.along hs
    · rw [hbody, hf]
      dsimp only
      rw [Script.times_succ]
      have hrounds := (plays_putOpcode op.mnemonic).bind fun _ _ _ =>
        (plays_round (hplays true)).bind fun _ _ _ => (plays_round (hplays false)).times count
      exact hrounds.along hs

/-- A sync before a byte: if there is none, nothing more is heard. -/
theorem follows_sync {α β : Type} {k : UInt8 → Grammar β} {f : Unit → Reception σ Interrupt α}
    (s : Session σ) (h : ∀ s, Along (.byte k) s ((f ()).run s)) :
    Along (.resync (.byte k)) s
      (((Reception.sync : Reception σ Halt Unit).orHalt >>= f).run s) := by
  rcases hsync : (Reception.sync : Reception σ Halt Unit).run s with ⟨e | u, s', effects⟩
  · have hrun : (Reception.sync : Reception σ Halt Unit).orHalt.run s =
        ⟨.error (.halt e), s', effects⟩ := by
      unfold Reception.orHalt Script.mapError
      dsimp only
      rw [hsync]
      rfl
    rw [Script.run_bind_error hrun]
    exact .noResync k hsync
  · have hrun : (Reception.sync : Reception σ Halt Unit).orHalt.run s = ⟨.ok (), s', effects⟩ := by
      unfold Reception.orHalt Script.mapError
      dsimp only
      rw [hsync]
      rfl
    rw [Script.run_bind_ok hrun]
    exact .resync hsync (h s')

theorem plays_beginCommand (p : Bool) :
    Plays p true (Reception.beginCommand : Reception σ Interrupt Unit) (pure ())
      fun _ _ => True :=
  .aside (fun s => ⟨rfl, s.decoder.stats.commands, rfl⟩) fun _ _ => rfl

theorem follows_repeatNext (cmd : UInt8) {s : Session σ} (hs : s.commandStart.isSome = true) :
    Along (Grammar.repeats cmd) s
      ((Reception.repeatNext cmd : Reception σ Interrupt Unit).run s) := by
  unfold Reception.repeatNext Grammar.repeats
  rw [dataSize_eq]
  refine (plays_readValue _ (by decide) _ s hs).bind ?_
  rintro count bytes s₁ ⟨hcount, hs₁⟩
  rw [hcount.value]
  refine (plays_putCommand _ _ s₁ hs₁).bind ?_
  rintro _ _ s₂ ⟨_, hs₂⟩
  refine follows_sync s₂ fun s₃ => ?_
  refine (plays_beginCommand _ s₃ rfl).bind (k := fun _ => Grammar.byte _) ?_
  rintro _ _ s₄ ⟨_, hs₄⟩
  refine (Plays.readByte s₄ hs₄).bind ?_
  rintro next _ s₅ ⟨rfl, hs₅⟩
  exact follows_repeated _ _ hs₅

/-- **What follows a sync is a command of the grammar.** -/
theorem follows_afterSync (s : Session σ) :
    Along Grammar.command s ((Reception.afterSync : Reception σ Interrupt Unit).run s) := by
  unfold Reception.afterSync Grammar.command
  refine (plays_beginCommand _ s rfl).bind (k := fun _ => Grammar.next >>= _) ?_
  rintro _ _ s₁ ⟨_, hs₁⟩
  refine (Plays.readByte s₁ hs₁).bind ?_
  rintro cmd _ s₂ ⟨rfl, hs₂⟩
  rw [instruction?_eq]
  cases Opcode.decode cmd with
  | none => exact (plays_unknownOpcode true cmd).along hs₂
  | some op =>
    refine (Plays.tell _ _ s₂ hs₂).bind (k := fun _ => _) ?_
    rintro _ _ s₃ ⟨_, hs₃⟩
    refine (plays_putOpcode _ s₃ hs₃).bind ?_
    rintro _ _ s₄ ⟨_, hs₄⟩
    rcases plays_payload (σ := σ) cmd op with ⟨hbody, hf⟩ | ⟨body, f, hbody, hf, hplays⟩
    · rw [hbody, hf]
      exact follows_repeatNext cmd hs₄
    · rw [hbody, hf]
      exact (hplays true).along hs₄

end Playing

/-! ## Steps -/

section Steps

variable {σ : Type} [Source σ Sample]

/-- The bytes heard in a run, the marks said and the size refused fit the grammar of commands. -/
structure OnGrammar {δ : Type} (t : Trace δ Annotation Halt Unit) (bs : List UInt8) : Prop where
  heard : heard t.items = bs.map Numeral.hexByte
  said : said t.items = Grammar.command.marks bs
  left : Grammar.command.left bs = []
  refused : ∀ e, Grammar.command.refused bs = some e → t.result = .error (.undecodable e)

theorem onGrammar_silent {δ : Type} {t : Trace δ Annotation Halt Unit} (h : t.items = []) :
    OnGrammar t [] where
  heard := by rw [h]; rfl
  said := by rw [h]; rfl
  left := rfl
  refused e he := by cases he

/-- After a sync, the outcome of a command is settled and nothing more is done. -/
theorem run_command {s s' : Session σ} {effects : List (Effect (Session σ) Annotation)}
    (hsync : Reception.sync.run s = ⟨.ok (), s', effects⟩) :
    Reception.command.run s =
      Trace.after effects ⟨Reception.settle (Reception.afterSync.run s').result,
        (Reception.afterSync.run s').state, (Reception.afterSync.run s').effects⟩ := by
  unfold Reception.command
  rw [Script.run_bind_ok hsync]
  congr 1
  rcases hafter : (Reception.afterSync : Reception σ Interrupt Unit).run s' with ⟨r, s'', after⟩
  have hattempt : (Script.attempt Reception.afterSync :
      Reception σ Halt (Except Interrupt Unit)).run s' = ⟨.ok r, s'', after⟩ := by
    simp only [Script.attempt, hafter]
  rw [Script.run_bind_ok hattempt]
  dsimp only
  rcases Reception.settle r with e | u <;> simp [Trace.after]

theorem command_onGrammar (s : Session σ) : ∃ bs, OnGrammar (Reception.command.run s) bs := by
  have hends := Reception.sync_ends (s := s)
  unfold Script.Ends at hends
  split at hends
  · rename_i s' effects hsync
    obtain ⟨bs, hheard, hsaid, hleft, hbegins, hrefused⟩ := (follows_afterSync s').heard_said
    refine ⟨bs, ?_⟩
    rw [run_command hsync]
    constructor
    · rw [Trace.items_after]
      exact (heard_append hbegins).trans (by rw [hends.heard, hheard]; rfl)
    · rw [Trace.items_after]
      exact said_append.trans (by rw [hends.said]; exact hsaid)
    · exact hleft
    · intro e he
      rw [Script.result_after]
      dsimp only
      rw [hrefused e he]
      rfl
  · rename_i e s' effects hsync
    refine ⟨[], onGrammar_silent ?_⟩
    rw [Reception.command, Script.run_bind_error hsync]
    exact hends

end Steps

end Updi

end BusDecode
