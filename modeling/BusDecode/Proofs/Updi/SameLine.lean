import BusDecode.Proofs.Source
import BusDecode.Proofs.Updi.CutShort
import BusDecode.Proofs.Updi.Matching

/-!
# One decoder on two lines that read the same

A decoder does alike on two lines that cannot be told apart by reading: moves along them come to the
same position with the same answer (`alike_move_beside`), and so a step hands on the same and leaves
the same decoder, on lines that still cannot be told apart (`alike_step_beside`).
-/

set_option autoImplicit false

namespace BusDecode

namespace Updi

open Script (Alike)
open Decoder (OnLine)

variable {σ τ : Type} [Source σ Sample] [Source τ Sample] {K : σ → τ → Prop} (hK : Source.Alike K)

include hK

namespace Reception

theorem alike_move_beside {step : LineCursor → σ → Except Halt Bool × LineCursor × σ}
    {step' : LineCursor → τ → Except Halt Bool × LineCursor × τ}
    (h : ∀ c s t, K s t → Source.Abreast .starved (fun _ : LineCursor × σ => False)
      (Source.Beside K) (step c s) (step' c t)) :
    Alike (Session.Beside K) (move step) (move step') := by
  refine .lift fun s t hst => ?_
  have hmove := h s.decoder.cursor _ _ hst.source
  rw [← hst.decoder]
  obtain ⟨r, ⟨c, source⟩, ⟨_, source'⟩, hs, ht, rfl, hrel⟩ | ⟨_, _, hlost⟩ := hmove.cases
  · rw [hs, ht]
    exact ⟨rfl, rfl, hK.takeEvents _ _ hrel, hst.commandStart, hst.byteStart, hst.valueStart,
      hst.frameEnd⟩
  · exact hlost.elim

/-- Everything done to receive goes alike on lines that read the same. -/
theorem congruence_beside : Congruence (σ := σ) (τ := τ) (Session.Beside K) fun _ _ _ =>
    Alike (Session.Beside K) :=
  congruence_alike Session.Beside.peers
    (fun edge budget => alike_move_beside hK fun c _ _ h =>
      LineCursor.waitEdge_until hK.until edge budget c h)
    fun count => alike_move_beside hK fun c _ _ h =>
      LineCursor.skip_until hK.until (by decide) count c h

theorem alike_command_beside :
    Alike (Session.Beside K) (command : Reception σ Halt Unit)
      (command : Reception τ Halt Unit) := by
  have hcong := congruence_beside hK
  exact fun s t h => Trace.alike_iff.2 (command_matches (Trace.alike_iff.1 (hcong.sync s t h))
    (Script.alike_iff.1 hcong.afterSync) (fun _ _ h => h) fun _ _ _ h => h)

end Reception

/-- **A step goes alike** on lines that read the same. -/
theorem alike_step_beside :
    Alike (OnLine.Beside K) (Decoder.step : Script (OnLine σ) Annotation Halt Unit)
      Decoder.step := by
  intro s t h
  have hview : ∀ (s : Session σ) (t : Session τ), s.Beside K t →
      OnLine.Beside K ⟨s.decoder, s.source⟩ ⟨t.decoder, t.source⟩ :=
    fun _ _ h => ⟨h.decoder, h.source⟩
  have hcommand := Reception.alike_command_beside hK { decoder := s.decoder, source := s.source }
    { decoder := t.decoder, source := t.source } ⟨h.decoder, h.source, rfl, rfl, rfl, rfl⟩
  exact Trace.alike_iff.2 (Decoder.step_matches (congrArg (·.config.samplerate) h.decoder)
    (fun _ _ => h) hview (fun _ => hview) (Trace.alike_iff.1 hcommand))

end Updi

end BusDecode
