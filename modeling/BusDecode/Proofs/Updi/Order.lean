import BusDecode.Proofs.Updi.Chronicle
import BusDecode.Updi.Command

/-!
# UPDI annotations in the order of time

A command starts with its sync, or from the second round of a repeated one on with its value, and
is handed on when its last byte is in; a value starts with its first byte.  Both places are marked
while they are remembered, so a command leaves its chronicle in order wherever it ends
(`Reception.command_upholds`).  Hence every row of a decoder is in order over its whole life,
whatever lines it reads, however much its sinks take, and however its calls end (`told_ascending`).
-/

set_option autoImplicit false

namespace BusDecode

namespace Updi

open Annotation (Ascending)

/-! ## Values -/

section Commands

variable {σ : Type} {rows rows' : List String} {xs ys : List Annotation} {s t : Session σ}

/-- If the command has a start, no command that was handed on starts behind it. -/
def Ready (xs : List Annotation) (s : Session σ) : Prop :=
  ∀ start, s.commandStart = some start → start ≤ s.now ∧ Until "updi" start xs

/-- A value has been read, and since then only certain rows have gone on. -/
structure Valued (rows : List String) (xs : List Annotation) (s : Session σ) : Prop where
  ready : Ready xs s
  value : Marks s.valueStart rows xs s

theorem Ready.later (h : Ready xs s) (hpassed : Passed rows xs s ys t) (hrow : "updi" ∉ rows) :
    Ready ys t := by
  intro start hstart
  rw [hpassed.commandStart] at hstart
  obtain ⟨hnow, huntil⟩ := h start hstart
  refine ⟨Nat.le_trans hnow hpassed.now, fun a ha harow => ?_⟩
  rcases hpassed.added a ha with hmem | hadded
  · exact huntil a hmem harow
  · rw [harow] at hadded
    exact absurd hadded hrow

theorem Valued.later (h : Valued rows xs s) (hpassed : Passed rows' xs s ys t)
    (hrow : "updi" ∉ rows') : Valued (rows ++ rows') ys t := by
  refine ⟨h.ready.later hpassed hrow, ?_⟩
  rw [hpassed.valueStart]
  exact h.value.later hpassed

/-- No command has been handed on that starts behind the place where this one does: its own start,
or else that of its value. -/
theorem Valued.command (h : Valued rows xs s) (hrow : "updi" ∉ rows) :
    s.commandStart.getD s.valueStart ≤ s.now ∧
      Until "updi" (s.commandStart.getD s.valueStart) xs := by
  cases hstart : s.commandStart with
  | some start => exact h.ready start hstart
  | none => exact ⟨h.value.passed, h.value.bounds "updi" hrow⟩

theorem Ready.put {a : Annotation} (h : Ready xs s)
    (ha : a.row = "updi" → ∀ start, s.commandStart = some start → a.start ≤ start) :
    Ready (xs ++ [a]) s := by
  intro start hstart
  obtain ⟨hnow, huntil⟩ := h start hstart
  refine ⟨hnow, List.forall_mem_append.2 ⟨huntil, ?_⟩⟩
  simpa using fun harow => ha harow start hstart

end Commands

namespace Reception

open Script (Upholds)

variable {σ ε : Type} {rows : List String} {xs : List Annotation} {s : Session σ}

theorem putCommand_ready (h : Valued rows xs s) (hrow : "updi" ∉ rows) (name operands : String) :
    Upholds Recorded (putCommand name operands : Reception σ ε Unit) xs s fun _ => Ready := by
  unfold putCommand
  obtain ⟨hpassed, huntil⟩ := h.command hrow
  refine .bind (.modify id (upholds_emit hpassed huntil rfl ?_))
  refine Ready.put h.ready fun _ start hstart => Nat.le_of_eq ?_
  exact congrArg (Option.getD · s.valueStart) hstart

theorem putContinuation_ready (h : Valued rows xs s) (hrow : "updi" ∉ rows)
    (hfurther : s.commandStart = none) (texts : List String) :
    Upholds Recorded (putContinuation texts : Reception σ ε Unit) xs s fun _ => Ready := by
  refine upholds_put "updi" h.value ⟨rfl, rfl, rfl⟩ hrow fun a _ _ => h.ready.put ?_
  intro _ start hstart
  rw [hfurther] at hstart
  cases hstart

theorem putRound_ready (h : Valued rows xs s) (hrow : "updi" ∉ rows)
    (name operands again data : String) :
    Upholds Recorded (putRound name operands again data : Reception σ ε Unit) xs s fun _ =>
      Ready := by
  unfold putRound
  refine .bind (.read ?_)
  split
  · exact putCommand_ready h hrow name operands
  · exact putContinuation_ready h hrow ‹_› _

/-- A warning about the value read last. -/
theorem putWarning_valued (h : Valued rows xs s) (hrow : "warnings" ∉ rows) (text : String) :
    Upholds Recorded (putWarning Session.valueStart text : Reception σ ε Unit) xs s fun _ ys t =>
      Valued rows ys t := by
  refine upholds_put "warnings" h.value ⟨rfl, rfl, rfl⟩ hrow fun a harow ha => ?_
  refine ⟨h.ready.put fun hupdi => ?_, h.value.put ha⟩
  rw [harow] at hupdi
  exact absurd hupdi (by decide)

/-- The byte read last begins a value. -/
theorem markValue_valued {Q : Unit → List Annotation → Session σ → Prop} (h : Ready xs s)
    (hbyte : Marks s.byteStart rows xs s)
    (hQ : ∀ t, Valued rows xs t → Q () xs t) :
    Upholds Recorded (markValue : Reception σ ε Unit) xs s Q :=
  .modify id (hQ _ ⟨h, hbyte.aside rfl⟩)

theorem putValue_valued (h : Valued byteRows xs s) {row : String} (hrow : row ∉ "updi" :: byteRows)
    (texts : List String) :
    Upholds Recorded (putField row Session.valueStart texts : Reception σ ε Unit) xs s
      fun _ ys t => Valued byteRows ys t := by
  simp only [List.mem_cons, not_or] at hrow
  refine upholds_put row h.value ⟨rfl, rfl, rfl⟩ (by simpa using hrow.2) fun a harow ha => ?_
  refine ⟨h.ready.put fun hupdi => ?_, h.value.put ha⟩
  exact absurd (harow.symm.trans hupdi) hrow.1

/-- A command that has begun starts with its sync. -/
theorem beginCommand_ready {Q : Unit → List Annotation → Session σ → Prop}
    (h : Marks s.decoder.syncStart syncRows xs s) (hQ : ∀ t, Ready xs t → Q () xs t) :
    Upholds Recorded (beginCommand : Reception σ ε Unit) xs s Q := by
  refine .modify id (hQ _ ?_)
  intro start hstart
  obtain rfl := Option.some.inj hstart
  exact ⟨h.passed, h.bounds "updi" (by decide)⟩

theorem putOpcode_ready (h : Ready xs s) (hbyte : Marks s.byteStart byteRows xs s) (name : String) :
    Upholds Recorded (putOpcode name : Reception σ ε Unit) xs s fun _ ys t =>
      Ready ys t ∧ Marks t.byteStart byteRows ys t := by
  refine upholds_put "updi-opcode" hbyte ⟨rfl, rfl, rfl⟩ (by decide) fun a harow ha => ?_
  refine ⟨h.put fun hupdi => ?_, hbyte.put ha⟩
  rw [harow] at hupdi
  exact absurd hupdi (by decide)

theorem unknownOpcode_upholds (h : Ready xs s) (hbyte : Marks s.byteStart byteRows xs s)
    (cmd : UInt8) :
    Upholds Recorded (unknownOpcode cmd : Reception σ ε Unit) xs s fun _ _ _ => True := by
  refine .bind (.note (.bind ((putOpcode_ready h hbyte _).mono ?_)))
  rintro _ ys t - ⟨-, hbyte⟩
  exact upholds_put "warnings" hbyte ⟨rfl, rfl, rfl⟩ (by decide) fun _ _ _ => trivial

/-! ## Reading operands -/

variable [Source σ Sample]

theorem readByte_ready (h : Ready xs s) :
    Upholds Recorded readByte xs s fun _ ys t => Ready ys t ∧ Marks t.byteStart byteRows ys t :=
  (readByte_passes xs s).mono fun _ _ _ _ ⟨hpassed, hmark⟩ =>
    ⟨h.later hpassed (by decide), hmark⟩

/-- Further bytes of a value leave its start where it is. -/
theorem readByte_valued (h : Valued byteRows xs s) :
    Upholds Recorded readByte xs s fun _ ys t => Valued byteRows ys t := by
  refine (readByte_passes xs s).mono fun _ ys t _ ⟨hpassed, _⟩ => ?_
  have hlater := h.later hpassed (by decide)
  exact ⟨hlater.ready, hlater.value.mono (by simp)⟩

theorem readSized_valued (h : Ready xs s) (size : Nat) (label : String) :
    Upholds Recorded (readSized size label) xs s fun _ ys t => Valued byteRows ys t := by
  unfold readSized
  split
  · refine .bind ((readByte_ready h).mono fun _ ys t _ ⟨hready, hbyte⟩ => ?_)
    exact .bind (markValue_valued hready hbyte fun _ hvalue => .answer hvalue)
  · refine .bind ((readByte_ready h).mono fun _ ys t _ ⟨hready, hbyte⟩ => ?_)
    refine .bind (markValue_valued hready hbyte fun _ hvalue => .bind ?_)
    exact (readByte_valued hvalue).mono fun _ _ _ _ hvalue => .answer hvalue
  · exact .fail

theorem readValue_valued (h : Ready xs s) (size : Nat) {row : String}
    (hrow : row ∉ "updi" :: byteRows) (label : String) :
    Upholds Recorded (readValue size row label) xs s fun _ ys t => Valued byteRows ys t := by
  unfold readValue
  refine .bind ((readSized_valued h size label).mono fun _ _ _ _ hvalue => .bind ?_)
  exact (putValue_valued hvalue hrow _).mono fun _ _ _ _ hvalue => .answer hvalue

theorem readAddress_valued (h : Ready xs s) (cmd : UInt8) :
    Upholds Recorded (readAddress cmd) xs s fun _ ys t => Valued byteRows ys t :=
  readValue_valued h _ (by decide) _

theorem readData_valued (h : Ready xs s) (size : Nat) :
    Upholds Recorded (readData size) xs s fun _ ys t => Valued byteRows ys t :=
  readValue_valued h _ (by decide) _

/-- An acknowledgement stands beside the value it is for. -/
theorem readAck_passes (xs : List Annotation) (s : Session σ) :
    Upholds Recorded readAck xs s fun _ ys t =>
      Passed (byteRows ++ ["updi-ack", "warnings"]) xs s ys t := by
  unfold readAck
  refine .bind ((readByte_passes xs s).mono fun _ ys t _ ⟨hpassed, hbyte⟩ => ?_)
  refine .bind (upholds_put "updi-ack" hbyte ⟨rfl, rfl, rfl⟩ (by decide) fun a ha hstart => ?_)
  refine .ite (fun _ => .answer ((hpassed.put ha).mono ?_)) fun _ => ?_
  · simp [byteRows]
  · refine upholds_put "warnings" (hbyte.put hstart) ⟨rfl, rfl, rfl⟩ (by decide) fun b hb _ => ?_
    exact (hpassed.put ha).put hb

theorem readRest_valued (n : Nat) (h : Valued byteRows xs s) :
    Upholds Recorded (readBlock.readRest n) xs s fun _ ys t => Valued byteRows ys t := by
  induction n generalizing xs s with
  | zero => exact .answer h
  | succ n ih =>
    refine .bind ((readByte_valued h).mono fun _ _ _ _ hvalue => .bind ?_)
    exact (ih hvalue).mono fun _ _ _ _ hvalue => .answer hvalue

theorem readBlock_valued (h : Ready xs s) (n : Nat) :
    Upholds Recorded (readBlock (n + 1)) xs s fun _ ys t => Valued byteRows ys t := by
  refine .bind ((readByte_ready h).mono fun _ ys t _ ⟨hready, hbyte⟩ => ?_)
  refine .bind (markValue_valued hready hbyte fun _ hvalue => .bind ?_)
  exact (readRest_valued n hvalue).mono fun _ _ _ _ hvalue => .answer hvalue

/-! ## Instructions -/

/-- The rows that go on while a value waits for its acknowledgement. -/
def ackRows : List String :=
  byteRows ++ (byteRows ++ ["updi-ack", "warnings"])

theorem readAck_valued (h : Valued byteRows xs s) :
    Upholds Recorded readAck xs s fun _ ys t => Valued ackRows ys t :=
  (readAck_passes xs s).mono fun _ _ _ _ hpassed => h.later hpassed (by decide)

theorem lds_ready (h : Ready xs s) (cmd : UInt8) :
    Upholds Recorded (lds cmd) xs s fun _ => Ready := by
  refine .bind ((readAddress_valued h cmd).mono fun _ _ _ _ haddr => ?_)
  refine .bind ((readData_valued haddr.ready _).mono fun _ _ _ _ hdata => ?_)
  exact putCommand_ready hdata (by decide) _ _

theorem ld_ready (h : Ready xs s) (cmd : UInt8) :
    Upholds Recorded (ld cmd) xs s fun _ => Ready := by
  refine .bind ((readData_valued h _).mono fun _ _ _ _ hdata => ?_)
  split
  · exact putRound_ready hdata (by decide) _ _ _ _
  · exact (putWarning_valued hdata (by decide) _).mono fun _ _ _ _ hwarned => hwarned.ready

theorem sts_ready (h : Ready xs s) (cmd : UInt8) :
    Upholds Recorded (sts cmd) xs s fun _ => Ready := by
  refine .bind ((readAddress_valued h cmd).mono fun _ _ _ _ haddr => ?_)
  refine .bind ((readAck_valued haddr).mono fun _ _ _ _ hack => ?_)
  refine .bind ((readData_valued hack.ready _).mono fun _ _ _ _ hdata => ?_)
  refine .bind ((readAck_valued hdata).mono fun _ _ _ _ hack => ?_)
  exact putCommand_ready hack (by decide) _ _

theorem st_ready (h : Ready xs s) (cmd : UInt8) :
    Upholds Recorded (st cmd) xs s fun _ => Ready := by
  refine .bind ((readData_valued h _).mono fun _ _ _ _ hdata => ?_)
  split
  · refine .bind ((readAck_valued hdata).mono fun _ _ _ _ hack => ?_)
    exact putRound_ready hack (by decide) _ _ _ _
  · exact (putWarning_valued hdata (by decide) _).mono fun _ _ _ _ hwarned => hwarned.ready

theorem ldcs_ready (h : Ready xs s) (cmd : UInt8) :
    Upholds Recorded (ldcs cmd) xs s fun _ => Ready := by
  refine .bind ((readData_valued h 0).mono fun _ _ _ _ hdata => ?_)
  exact putCommand_ready hdata (by decide) _ _

theorem stcs_ready (h : Ready xs s) (cmd : UInt8) :
    Upholds Recorded (stcs cmd) xs s fun _ => Ready := by
  refine .bind ((readData_valued h 0).mono fun _ _ _ _ hdata => ?_)
  exact putCommand_ready hdata (by decide) _ _

/-- A key has at least one byte. -/
theorem exists_keyLength {size count : Nat} (h : keyLength size = some count) :
    ∃ n, count = n + 1 := by
  unfold keyLength at h
  split at h <;> cases h <;> exact ⟨_, rfl⟩

theorem key_ready (h : Ready xs s) (cmd : UInt8) :
    Upholds Recorded (key cmd) xs s fun _ => Ready := by
  unfold key
  split
  · rename_i count hcount
    obtain ⟨n, rfl⟩ := exists_keyLength hcount
    refine .bind ((readBlock_valued h n).mono fun _ _ _ _ hbytes => ?_)
    refine .bind ((putValue_valued hbytes (by decide) _).mono fun _ _ _ _ hvalue => ?_)
    exact putCommand_ready hvalue (by decide) _ _
  · exact .fail

theorem readSib_ready (h : Ready xs s) : Upholds Recorded readSib xs s fun _ => Ready := by
  refine .bind ((readBlock_valued h 15).mono fun _ _ _ _ hbytes => ?_)
  refine .bind ((putValue_valued hbytes (by decide) _).mono fun _ _ _ _ hvalue => ?_)
  split
  · exact putCommand_ready hvalue (by decide) _ _
  · refine .bind (.note (.bind ((putWarning_valued hvalue (by decide) _).mono ?_)))
    exact fun _ _ _ _ hwarned => putCommand_ready hwarned (by decide) _ _

/-- Whatever instruction it is, nothing is left behind its start. -/
theorem payload_ready {cmd : UInt8} {op : Opcode} {body : Reception σ Interrupt Unit}
    (hbody : payload? cmd op = some body) (h : Ready xs s) :
    Upholds Recorded body xs s fun _ => Ready := by
  cases op <;> cases hbody
  · exact lds_ready h cmd
  · exact ld_ready h cmd
  · exact sts_ready h cmd
  · exact st_ready h cmd
  · exact ldcs_ready h cmd
  · exact stcs_ready h cmd
  · exact key_ready h cmd
  · exact readSib_ready h

/-! ## Commands -/

theorem repeated_upholds (h : Ready xs s) (hbyte : Marks s.byteStart byteRows xs s) (count : Nat)
    (cmd : UInt8) : Upholds Recorded (repeated count cmd) xs s fun _ _ _ => True := by
  unfold repeated
  split
  · exact unknownOpcode_upholds h hbyte cmd
  · split
    · refine .bind (.note (.bind ((putOpcode_ready h hbyte _).mono ?_)))
      rintro _ ys t - ⟨-, hbyte⟩
      exact upholds_put "warnings" hbyte ⟨rfl, rfl, rfl⟩ (by decide) fun _ _ _ => trivial
    · rename_i body hbody
      refine .bind ((putOpcode_ready h hbyte _).mono ?_)
      rintro _ ys t - ⟨hready, -⟩
      -- the rounds after the first one have no start that could be behind anything
      have hround : ∀ zs u, Ready zs u → Upholds Recorded (round body) zs u fun _ => Ready :=
        fun zs u hu => .bind ((payload_ready hbody hu).mono fun _ _ _ _ _ => .modify id nofun)
      exact (Upholds.times Ready hround (count + 1) hready).mono fun _ _ _ _ _ => trivial

theorem repeatNext_upholds (h : Ready xs s) (cmd : UInt8) :
    Upholds Recorded (repeatNext cmd) xs s fun _ _ _ => True := by
  refine .bind ((readValue_valued h _ (by decide) _).mono fun _ _ _ _ hcount => ?_)
  refine .bind ((putCommand_ready hcount (by decide) _ _).mono fun _ ys t _ _ => ?_)
  refine .bind (.mapError ((sync_marks ys t).mono fun _ _ _ _ hsync => ?_))
  refine .bind (beginCommand_ready hsync fun _ hready => ?_)
  refine .bind ((readByte_ready hready).mono fun _ _ _ _ ⟨hready, hbyte⟩ => ?_)
  exact repeated_upholds hready hbyte _ _

theorem afterSync_upholds (h : Marks s.decoder.syncStart syncRows xs s) :
    Upholds Recorded afterSync xs s fun _ _ _ => True := by
  refine .bind (beginCommand_ready h fun _ hready => ?_)
  refine .bind ((readByte_ready hready).mono fun cmd _ _ _ ⟨hready, hbyte⟩ => ?_)
  split
  · exact unknownOpcode_upholds hready hbyte cmd
  · rename_i op _
    refine .bind (.note (.bind ((putOpcode_ready hready hbyte _).mono ?_)))
    rintro _ ys t - ⟨hready, -⟩
    cases hbody : (payload? cmd op : Option (Reception σ Interrupt Unit)) with
    | none => exact repeatNext_upholds hready cmd
    | some body => exact (payload_ready hbody hready).mono fun _ _ _ _ _ => trivial

/-- A command keeps the chronicle, from whatever session it begins and however it ends. -/
theorem command_upholds (xs : List Annotation) (s : Session σ) :
    Upholds Recorded command xs s fun _ _ _ => True := by
  refine .bind ((sync_marks xs s).mono fun _ ys t _ hsync => ?_)
  refine .bind (.attempt (afterSync_upholds hsync) fun outcome zs u _ => ?_)
  split
  · exact .answer trivial
  · exact .fail

end Reception

/-! ## Calls -/

/-- A call on a decoder: the line it reads, whether it decodes the line or takes a single step, and
the sink.  A refusal ends a call, so all there is to a sink is how much it takes and what it says
then. -/
structure Call where
  {σ : Type}
  [source : Source σ Sample]
  line : σ
  whole : Bool
  room : Option Nat
  refusal : Halt

namespace Decoder

/-- What comes of a call, and the annotations that were taken. -/
def call (d : Decoder) (c : Call) : Played Decoder (Limited (Array Annotation)) Unit :=
  let sink : Limited (Array Annotation) := ⟨#[], c.refusal, c.room⟩
  have := c.source
  (if c.whole then d.decode c.line sink else (step.run ⟨d, c.line⟩).play sink).mapState
    OnLine.decoder

/-- The annotations that were taken in one call after the other. -/
def told (d : Decoder) : List Call → List Annotation
  | [] => []
  | c :: calls => (d.call c).sink.inner.toList ++ (d.call c).state.told calls

end Decoder

/-- Something about all annotations so far and the decoder that every command upholds, and that is
no less true of the first ones of these annotations. -/
structure Lasting (P : List Annotation → Decoder → Prop) : Prop where
  closed : ∀ {ys zs d}, P (ys ++ zs) d → P ys d
  command : ∀ {σ : Type} [Source σ Sample] (xs : List Annotation) (s : Session σ),
    Script.Upholds (fun xs s => P xs s.decoder) Reception.command xs s fun _ _ _ => True

namespace Lasting

open Decoder (OnLine)

open Script (Upholds)

variable {P : List Annotation → Decoder → Prop} {σ : Type} [Source σ Sample]
  {xs : List Annotation} {d : Decoder}

theorem step_upholds (hP : Lasting P) (xs : List Annotation) (s : OnLine σ) :
    Upholds (fun xs s => P xs s.decoder) Decoder.step xs s fun _ _ _ => True := by
  cases hrate : s.decoder.config.samplerate with
  | none =>
    have hrun : Decoder.step.run s =
        (Script.fail (.undecodable .missingSampleRate) : Script (OnLine σ) Annotation Halt Unit).run
          s := by
      simp only [Decoder.step, hrate, Script.run_fail]
    exact .of_run hrun .fail
  | some hz =>
    have hrun : Decoder.step.run s = (Reception.command.focus
        (fun s : OnLine σ => { decoder := s.decoder, source := s.source })
        (fun s => ⟨s.decoder, s.source⟩)).run s := by
      simp only [Decoder.step, hrate]
    exact .of_run hrun (.focus id (hP.command xs _))

theorem steps_upholds (hP : Lasting P) (xs : List Annotation) (s : OnLine σ) :
    Upholds (fun xs s => P xs s.decoder) Decoder.steps xs s fun _ _ _ => True := by
  refine .loop (fun ys t => ?_) xs s
  unfold Decoder.stepOn
  rw [← bind_pure_comp]
  exact .bind (.attempt (hP.step_upholds ys t) fun _ _ _ _ => .answer fun _ _ => trivial)

theorem run (hP : Lasting P) {s : OnLine σ} (h : P xs s.decoder) :
    (Decoder.run.run s).Throughout fun ys t => P (xs ++ ys) t.decoder := by
  have halong := (hP.steps_upholds xs s).throughout h
  unfold Decoder.run
  dsimp only
  rcases hrun : Decoder.steps.run s with ⟨e | e, s', effects⟩
  · exact e.elim
  · rw [hrun] at halong
    exact ⟨halong.last, halong.seen⟩

omit [Source σ Sample] in
/-- It is true of what a sink takes of a run. -/
theorem played (hP : Lasting P) {t : Trace (OnLine σ) Annotation Halt Unit}
    (h : t.Throughout fun ys t => P (xs ++ ys) t.decoder) (e : Halt) (room : Option Nat) :
    let played := t.play (⟨#[], e, room⟩ : Limited (Array Annotation))
    P (xs ++ played.sink.inner.toList) played.state.decoder := by
  refine h.played (fun ys zs s hs => ?_) e room
  rw [← List.append_assoc] at hs
  exact hP.closed hs

theorem decode (hP : Lasting P) (h : P xs d) (line : σ) (e : Halt) (room : Option Nat) :
    let played := d.decode line (⟨#[], e, room⟩ : Limited (Array Annotation))
    P (xs ++ played.sink.inner.toList) played.state.decoder := by
  unfold Decoder.decode
  split
  · simpa using h
  · exact hP.played (hP.run (s := ⟨d, line⟩) h) e room

omit [Source σ Sample] in
theorem call (hP : Lasting P) (h : P xs d) (c : Call) :
    P (xs ++ (d.call c).sink.inner.toList) (d.call c).state := by
  obtain ⟨line, whole, room, refusal⟩ := c
  cases whole with
  | false => exact hP.played ((hP.step_upholds xs ⟨d, line⟩).throughout h) refusal room
  | true => exact hP.decode h line refusal room

omit [Source σ Sample] in
/-- It is true over the whole life of a decoder. -/
theorem told (hP : Lasting P) (h : P xs d) (calls : List Call) :
    ∃ d', P (xs ++ d.told calls) d' := by
  induction calls generalizing xs d with
  | nil => exact ⟨d, by simpa [Decoder.told] using h⟩
  | cons c calls ih =>
    obtain ⟨d', h'⟩ := ih (hP.call h c)
    exact ⟨d', by simpa [Decoder.told] using h'⟩

end Lasting

theorem lasting_chronicle : Lasting fun xs d => Chronicle xs d.cursor :=
  ⟨Chronicle.of_append, Reception.command_upholds⟩

theorem Chronicle.told {xs : List Annotation} {d : Decoder} (h : Chronicle xs d.cursor)
    (calls : List Call) : ∃ c, Chronicle (xs ++ d.told calls) c := by
  obtain ⟨d', h'⟩ := lasting_chronicle.told h calls
  exact ⟨d'.cursor, h'⟩

/-- A run hands on nothing that starts before its cursor. -/
theorem run_onward {σ : Type} [Source σ Sample] {s : Decoder.OnLine σ}
    (h : s.decoder.cursor.Placed) :
    ∀ a ∈ (Decoder.run.run s).items, s.decoder.cursor.now ≤ a.start := by
  intro a ha
  -- an annotation in the same row that starts where the cursor is
  let before : Annotation := .field a.row s.decoder.cursor.now s.decoder.cursor.now ""
  have hbefore : Chronicle [before] s.decoder.cursor :=
    ⟨h, by simp [before, Annotation.field], by simp [before, Annotation.field],
      fun row => Annotation.ascending_one before⟩
  have hordered := (lasting_chronicle.run hbefore).last.ordered a.row
  exact (List.pairwise_cons.1 hordered).1 a ha rfl rfl

/-- **Every row is in order.**  In whatever calls a decoder is used, over its whole life nothing
that it hands on stops before it starts, and in no row a start time goes back. -/
theorem told_ascending (name : String) (config : Config) (calls : List Call) :
    let xs := Decoder.told { name, config } calls
    (∀ a ∈ xs, a.start ≤ a.stop) ∧ ∀ row, Ascending row xs := by
  have hfresh : Chronicle [] ({ name, config } : Decoder).cursor :=
    ⟨fun _ => rfl, nofun, nofun, fun _ => Annotation.ascending_nil⟩
  obtain ⟨c, hc⟩ := hfresh.told calls
  exact ⟨hc.forward, hc.ordered⟩

end Updi

end BusDecode
