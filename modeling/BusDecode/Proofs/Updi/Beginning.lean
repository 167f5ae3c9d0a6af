import BusDecode.Proofs.Alternating
import BusDecode.Proofs.Updi.Transmission

/-!
# The beginning of a line

A fresh cursor has no position on its line.  It takes one from the first sample, and since the first
thing that is done on a line is a wait, a decoder goes on from there as one does whose cursor has
read that sample already (`run_fresh`).
-/

set_option autoImplicit false

namespace BusDecode

namespace Updi

open LineCursor (justRead)
open Decoder (OnLine)

/-- Commands that begin with the same wait are the same. -/
theorem Reception.command_congr {σ : Type} [Source σ Sample] {s t : Session σ}
    (h : (Reception.waitEdge .falling none).run s = (Reception.waitEdge .falling none).run t) :
    Reception.command.run s = Reception.command.run t := by
  have htry : Reception.trySync.run s = Reception.trySync.run t := Script.run_bind_congr h
  have hsync : Reception.sync.run s = Reception.sync.run t := by
    rw [Reception.sync, Script.loop_eq]
    exact Script.run_bind_congr (Script.run_bind_congr htry)
  exact Script.run_bind_congr hsync

section Fresh

variable {d : Decoder} {x : Sample} {line : List Sample}

theorem step_fresh (hrate : d.config.samplerate.isSome) (h : d.cursor = {}) :
    Decoder.step.run (⟨d, x :: line⟩ : OnLine (List Sample)) =
      Decoder.step.run ⟨{ d with cursor := justRead x }, line⟩ := by
  rw [run_step hrate, run_step hrate]
  refine congrArg (Trace.mapState _) (Reception.command_congr ?_)
  simp only [Reception.waitEdge, Reception.move, Script.run_lift, h, LineCursor.waitEdge_fresh]

/-- **A fresh cursor** goes on as if it had just read the first sample of its line. -/
theorem run_fresh (hrate : d.config.samplerate.isSome) (h : d.cursor = {}) :
    Decoder.run.run (⟨d, x :: line⟩ : OnLine (List Sample)) =
      Decoder.run.run ⟨{ d with cursor := justRead x }, line⟩ := by
  rw [Decoder.run_eq, Decoder.run_eq]
  exact Script.run_bind_congr (step_fresh hrate h)

/-- There is nothing to decode on a line without samples. -/
theorem run_empty (hrate : d.config.samplerate.isSome) (h : d.cursor = {}) :
    Decoder.run.run (⟨d, []⟩ : OnLine (List Sample)) = ⟨.error .endOfStream, ⟨d, []⟩, []⟩ := by
  have hwait : (Reception.waitEdge .falling none).run { decoder := d, source := ([] : List Sample) } =
      ⟨.error .endOfStream, { decoder := d, source := [] }, []⟩ := by
    obtain ⟨name, config, cursor, bitTime, syncStart, stats⟩ := d
    obtain rfl : cursor = {} := h
    rfl
  refine Decoder.run_step_error ?_
  rw [run_step hrate, Reception.command, Script.run_bind_error (Reception.run_sync_over hwait)]
  rfl

end Fresh

end Updi

end BusDecode
