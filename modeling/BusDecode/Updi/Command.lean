import BusDecode.Script.Play
import BusDecode.Updi.Payload
import BusDecode.Updi.Sync

/-!
# Decoding UPDI commands

A step decodes one command, from its sync to the last byte of its payload; broken framing drops
the command without ending the step in an error.  Decoding a line is taking steps until one fails,
and the end of the line is the normal way to fail.
-/

set_option autoImplicit false

namespace BusDecode

namespace Updi

namespace Reception

variable {σ ε : Type} [Source σ Sample]

/-- The bytes after an opening sync belong to a command that starts with it. -/
def beginCommand : Reception σ ε Unit :=
  Script.modify fun s => { s with commandStart := some s.decoder.syncStart }

/-- One round of a repeated instruction; the rounds after it have no command start. -/
def round (body : Reception σ Interrupt Unit) : Reception σ Interrupt Unit := do
  body
  Script.modify fun s => { s with commandStart := none }

/-- The instruction that a REPEAT is followed by, run once more often than the count says. -/
def repeated (count : Nat) (cmd : UInt8) : Reception σ Interrupt Unit :=
  match Opcode.decode cmd with
  | none => unknownOpcode cmd
  | some op =>
    match payload? cmd op with
    | none => do
      tell .debug fun _ => "Nested REPEAT"
      putOpcode "REPEAT!"
      putWarning Session.byteStart "REPEAT cannot be repeated"
    | some body => do
      putOpcode op.mnemonic
      Script.times (count + 1) (round body)

/-- REPEAT: a count, then an instruction with a sync of its own. -/
def repeatNext (cmd : UInt8) : Reception σ Interrupt Unit := do
  let count ← readValue (dataSize cmd) "updi-data" "Count"
  putCommand "REPEAT" (toString count.value.toNat)
  sync.orHalt
  beginCommand
  let next ← readByte
  repeated count.value.toNat next

/-- What follows the sync of a command: its opcode and payload. -/
def afterSync : Reception σ Interrupt Unit := do
  beginCommand
  let cmd ← readByte
  match Opcode.decode cmd with
  | none => unknownOpcode cmd
  | some op => do
    tell .trace fun _ => s!"Opcode {Numeral.hexByte cmd}: {op.mnemonic}"
    putOpcode op.mnemonic
    (payload? cmd op).getD (repeatNext cmd)

/-- Broken framing ends a command but not the decoding. -/
def settle : Except Interrupt Unit → Except Halt Unit
  | .ok () => .ok ()
  | .error .resync => .ok ()
  | .error (.halt e) => .error e

/-- One command: its sync, then whatever of it can be received. -/
def command : Reception σ Halt Unit := do
  sync
  let outcome ← Script.attempt afterSync
  match settle outcome with
  | .ok () => return ()
  | .error e => Script.fail e

/-! ## A command reads at least one sample -/

theorem frugal_round {body : Reception σ Interrupt Unit} (h : Frugal body) :
    Frugal (round body) :=
  .bind h fun _ => frugal_modify fun _ => rfl

theorem frugal_repeated (count : Nat) (cmd : UInt8) :
    Frugal (repeated count cmd : Reception σ Interrupt Unit) := by
  unfold repeated
  split
  · exact frugal_unknownOpcode cmd
  · split
    · exact .bind (frugal_tell _ _) fun _ => .bind (frugal_putOpcode _) fun _ =>
        frugal_putWarning _ _
    · rename_i body hbody
      exact .bind (frugal_putOpcode _) fun _ => .times (frugal_round (frugal_payload hbody)) _

theorem frugal_repeatNext (cmd : UInt8) : Frugal (repeatNext cmd : Reception σ Interrupt Unit) :=
  .bind (frugal_readValue _ _ _) fun _ => .bind (frugal_putCommand _ _) fun _ =>
    .bind (frugal_orHalt frugal_sync) fun _ => .bind (frugal_modify fun _ => rfl) fun _ =>
      .bind frugal_readByte fun _ => frugal_repeated _ _

theorem frugal_afterSync : Frugal (afterSync : Reception σ Interrupt Unit) := by
  refine .bind (frugal_modify fun _ => rfl) fun _ => .bind frugal_readByte fun cmd => ?_
  split
  · exact frugal_unknownOpcode cmd
  · rename_i op _
    refine .bind (frugal_tell _ _) fun _ => .bind (frugal_putOpcode _) fun _ => ?_
    cases h : (payload? cmd op : Option (Reception σ Interrupt Unit)) with
    | none => exact frugal_repeatNext cmd
    | some body => exact frugal_payload h

theorem consumes_command : Script.Consumes Session.unread (command : Reception σ Halt Unit) := by
  refine .bind_left consumes_sync fun _ => .bind (.attempt frugal_afterSync) fun outcome => ?_
  split
  · exact .answer _
  · exact .fail _

end Reception

namespace Decoder

variable {σ κ : Type} [Source σ Sample]

/-! ## Steps -/

/-- A decoder and the line it reads. -/
structure OnLine (σ : Type) where
  decoder : Decoder
  source : σ

/-- Samples left to read, at most. -/
def OnLine.unread (s : OnLine σ) : Nat :=
  Source.size s.source

def step : Script (OnLine σ) Annotation Halt Unit :=
  ⟨fun s =>
    match s.decoder.config.samplerate with
    | none => ⟨.error (.undecodable .missingSampleRate), s, []⟩
    | some _ =>
      ((Reception.command (σ := σ)).focus
        (fun s : OnLine σ => { decoder := s.decoder, source := s.source })
        (fun s => ⟨s.decoder, s.source⟩)).run s⟩

/-- A step that answers has read at least one sample. -/
theorem consumes_step :
    Script.Consumes OnLine.unread (step : Script (OnLine σ) Annotation Halt Unit) := by
  intro s a h
  unfold step at h ⊢
  dsimp only at h ⊢
  split at h
  · simp at h
  · exact Reception.consumes_command _ a h

/-- One step of decoding a line: no answer yet, or the reason why it is over. -/
def stepOn : Script (OnLine σ) Annotation Empty (Option Halt) :=
  (fun r => match r with
    | .ok () => none
    | .error e => some e) <$> Script.attempt step

theorem descends_stepOn :
    Script.Descends OnLine.unread (stepOn : Script (OnLine σ) Annotation Empty (Option Halt)) := by
  intro s h
  have hs := consumes_step (σ := σ) s ()
  simp only [stepOn, ← bind_pure_comp, Script.run_bind, Script.attempt, Script.run_pure] at h ⊢
  cases hr : ((step (σ := σ)).run s).result with
  | ok a => exact hs (by rw [hr])
  | error e => simp [hr] at h

/-- Takes steps until one fails and answers with its reason. -/
def steps : Script (OnLine σ) Annotation Empty Halt :=
  Script.loop stepOn OnLine.unread descends_stepOn

/-- Takes steps until one fails; that failure is the result. -/
def run : Script (OnLine σ) Annotation Halt Unit :=
  ⟨fun s =>
    match steps.run s with
    | ⟨.ok e, s, effects⟩ => ⟨.error e, s, effects⟩⟩

/-! ## Step by step -/

section Steps

variable {s s' : OnLine σ} {effects : List (Effect (OnLine σ) Annotation)}

/-- Whether decoding goes on after a step, and why not. -/
theorem run_stepOn {r : Except Halt Unit} (h : step.run s = ⟨r, s', effects⟩) :
    stepOn.run s = ⟨.ok (match r with
      | .ok () => none
      | .error e => some e), s', effects⟩ := by
  unfold stepOn
  rw [← bind_pure_comp, Script.run_bind]
  simp only [Script.attempt, h, Script.run_pure, Trace.after, List.append_nil]
  cases r <;> rfl

/-- A run goes on after a step that did not fail. -/
theorem run_step_ok (h : step.run s = ⟨.ok (), s', effects⟩) :
    run.run s = (run.run s').after effects := by
  have hon : stepOn.run s = ⟨.ok none, s', effects⟩ := run_stepOn h
  have hsteps : steps.run s = (steps.run s').after effects := by
    conv => lhs; rw [steps, Script.loop_eq, Script.run_bind_ok hon]
    rfl
  unfold run
  dsimp only
  rw [hsteps]
  rcases steps.run s' with ⟨e | a, s'', after⟩
  · exact e.elim
  · rfl

/-- A run is over with the first step that fails. -/
theorem run_step_error {e : Halt} (h : step.run s = ⟨.error e, s', effects⟩) :
    run.run s = ⟨.error e, s', effects⟩ := by
  have hon : stepOn.run s = ⟨.ok (some e), s', effects⟩ := run_stepOn h
  have hsteps : steps.run s = ⟨.ok e, s', effects⟩ := by
    rw [steps, Script.loop_eq, Script.run_bind_ok hon]
    simp [Trace.after]
  unfold run
  dsimp only
  rw [hsteps]

/-- A run is a step and then a run, if the step does not fail. -/
theorem run_eq (s : OnLine σ) : run.run s = (step >>= fun _ => run).run s := by
  rcases h : step.run s with ⟨_ | _, s', effects⟩
  · rw [run_step_error h, Script.run_bind_error h]
  · rw [run_step_ok h, Script.run_bind_ok h]

end Steps

/-! ## Decoding a line -/

def beginning (d : Decoder) (hz : Nat) : Event :=
  .told d.name .debug s!"Decoding at {hz} Hz"

def summary (d : Decoder) : Event :=
  .told d.name .debug (s!"Stopped after {d.stats.commands} commands, {d.stats.syncs} syncs " ++
    s!"({d.stats.syncAbandoned} abandoned), {d.stats.frameErrors} frame errors")

/-- The summary is left out when a fault cuts the decoding off. -/
def closing (result : Except Halt Unit) (d : Decoder) : List Event :=
  match result with
  | .error e => if e.isFault then [] else [d.summary]
  | .ok () => [d.summary]

/-- Decodes commands until the line ends, a sink refuses an annotation or the input cannot be
decoded; only the first of these is a success. -/
def decode [Sink κ Annotation] (d : Decoder) (source : σ) (sink : κ) :
    Played (OnLine σ) κ Unit :=
  match d.config.samplerate with
  | none => ⟨.error (.undecodable .missingSampleRate), ⟨d, source⟩, sink, []⟩
  | some hz =>
    let played := ((run (σ := σ)).run ⟨d, source⟩).play sink
    (played.between [d.beginning hz] (closing played.result played.state.decoder)).mapResult
      Halt.untilEnd

end Decoder

end Updi

end BusDecode
