import BusDecode.Proofs.LineCursor.CutShort
import BusDecode.Proofs.Updi.Congruence

/-!
# Decoding a line that breaks

A decoder on a line that breaks goes as the same decoder does on a sound line, until it comes to
the break: then the fault ends its command, its step and its run, and what was annotated by then is
how the sound run begins.  A sync under way holds its annotations back, so they are not among them;
they come later in the sound run, if at all.
-/

set_option autoImplicit false

namespace BusDecode

namespace Updi

open Script (Cut)
open Decoder (OnLine)

variable {σ τ : Type}

/-- Sessions that differ in their sources alone, which are related. -/
structure Session.Beside (K : σ → τ → Prop) (s : Session σ) (t : Session τ) : Prop where
  decoder : s.decoder = t.decoder
  source : K s.source t.source
  commandStart : s.commandStart = t.commandStart
  byteStart : s.byteStart = t.byteStart
  valueStart : s.valueStart = t.valueStart
  frameEnd : s.frameEnd = t.frameEnd

/-- The same decoder on two lines that are related. -/
structure Decoder.OnLine.Beside (K : σ → τ → Prop) (s : OnLine σ) (t : OnLine τ) : Prop where
  decoder : s.decoder = t.decoder
  source : K s.source t.source

variable {K : σ → τ → Prop} {lost : σ → Prop} {fault : Halt}

/-- A change of the decoder made on both sides. -/
theorem Session.Beside.update {s : Session σ} {t : Session τ} (h : s.Beside K t)
    (f : Decoder → Decoder) :
    Session.Beside K { s with decoder := f s.decoder } { t with decoder := f t.decoder } :=
  ⟨congrArg f h.decoder, h.source, h.commandStart, h.byteStart, h.valueStart, h.frameEnd⟩

/-- Reception reads the same from both sides, and writes the same. -/
theorem Session.Beside.peers : Peers (Session.Beside K) where
  now _ _ h := congrArg (fun d => d.cursor.now) h.decoder
  config _ _ h := congrArg Decoder.config h.decoder
  bitTime _ _ h := congrArg Decoder.bitTime h.decoder
  syncStart _ _ h := congrArg Decoder.syncStart h.decoder
  commandStart _ _ h := h.commandStart
  byteStart _ _ h := h.byteStart
  valueStart _ _ h := h.valueStart
  frameEnd _ _ h := h.frameEnd
  setBitTime _ _ n h := h.update fun d => { d with bitTime := n }
  setSyncStart _ _ n h := h.update fun d => { d with syncStart := n }
  setCommandStart _ _ _ h := ⟨h.decoder, h.source, rfl, h.byteStart, h.valueStart, h.frameEnd⟩
  setByteStart _ _ _ h := ⟨h.decoder, h.source, h.commandStart, rfl, h.valueStart, h.frameEnd⟩
  setValueStart _ _ _ h := ⟨h.decoder, h.source, h.commandStart, h.byteStart, rfl, h.frameEnd⟩
  setFrameEnd _ _ _ h := ⟨h.decoder, h.source, h.commandStart, h.byteStart, h.valueStart, rfl⟩
  count _ _ f _ h := h.update fun d => { d with stats := f d.stats }

variable [Source σ Sample] [Source τ Sample]

namespace Reception

theorem cut_move {step : LineCursor → σ → Except Halt Bool × LineCursor × σ}
    {step' : LineCursor → τ → Except Halt Bool × LineCursor × τ} (hK : Source.Breaks fault lost K)
    (h : ∀ c s t, K s t → Source.Abreast fault (fun p : LineCursor × σ => lost p.2)
      (Source.Beside K) (step c s) (step' c t)) :
    Cut fault (fun s => lost s.source) (Session.Beside K) (move step) (move step') := by
  refine .lift fun s t hst => ?_
  have hmove := h s.decoder.cursor _ _ hst.source
  rw [← hst.decoder]
  obtain ⟨r, ⟨c, source⟩, ⟨_, source'⟩, hs, ht, rfl, hrel⟩ | ⟨⟨c, source⟩, hs, hlost⟩ := hmove.cases
  · rw [hs, ht]
    obtain ⟨hevents, hrel'⟩ := hK.takeEvents _ _ hrel
    exact .inl ⟨rfl, ⟨rfl, hrel', hst.commandStart, hst.byteStart, hst.valueStart, hst.frameEnd⟩,
      hevents⟩
  · rw [hs]
    have hsilent := hK.silent _ hlost
    refine .inr ⟨rfl, ?_, ?_⟩
    · dsimp only
      rw [hsilent]
      exact hlost
    · dsimp only
      rw [hsilent]

variable (hK : Source.Breaks fault lost K) (hfault : fault ≠ .endOfStream)

include hK hfault

/-- Everything done to receive on a line that breaks is the same on a sound one, or cut short. -/
theorem congruence_cut : Congruence (σ := σ) (τ := τ) (Session.Beside K) fun _ _ _ =>
    Cut (Cause.halt fault) (fun s => lost s.source) (Session.Beside K) where
  toPeers := Session.Beside.peers
  answer := .answer
  fail := .fail
  read := .read
  modify := .modify
  tell severity _ _ hmessage := .note fun s t h => by rw [h.decoder, hmessage s t h]
  emit := .emit
  bind := .bind
  orHalt h := h.mapError _
  withhold := .withhold
  loop := .loop
  waitEdge edge budget := cut_move hK fun c _ _ h =>
    LineCursor.waitEdge_until hK.toUntil edge budget c h
  skip count := cut_move hK fun c _ _ h => LineCursor.skip_until hK.toUntil hfault count c h

/-- A command is cut short by the fault and by no broken frame. -/
theorem cut_command :
    Cut fault (fun s => lost s.source) (Session.Beside K) (command : Reception σ Halt Unit)
      (command : Reception τ Halt Unit) := by
  have hcong := congruence_cut hK hfault
  refine .bind hcong.sync fun _ => .attempt_bind hcong.afterSync (fun outcome => ?_) rfl
  split
  · exact .answer _
  · exact .fail _

end Reception

section Steps

variable (hK : Source.Breaks fault lost K) (hfault : fault ≠ .endOfStream)

include hK hfault

theorem cut_step :
    Cut fault (fun s => lost s.source) (OnLine.Beside K)
      (Decoder.step : Script (OnLine σ) Annotation Halt Unit) Decoder.step := by
  intro s t h
  unfold Decoder.step
  dsimp only
  rw [← h.decoder]
  split
  · exact .whole rfl h rfl
  · refine Cut.focus (Reception.cut_command hK hfault) ?_ ?_ ?_ s t h
    · exact fun _ _ h => ⟨h.decoder, h.source, rfl, rfl, rfl, rfl⟩
    · exact fun _ _ h => ⟨h.decoder, h.source⟩
    · exact fun _ h => h

/-- **A run** on a line that breaks takes the same steps as on a sound one, up to the break. -/
theorem cut_run :
    Cut fault (fun s => lost s.source) (OnLine.Beside K)
      (Decoder.run : Script (OnLine σ) Annotation Halt Unit) Decoder.run := by
  intro s t h
  induction hn : s.unread using Nat.strongRecOn generalizing s t with
  | ind n ih =>
    subst hn
    rw [Decoder.run_eq, Decoder.run_eq]
    refine (cut_step hK hfault s t h).bind fun _ hstep hrel => ?_
    exact ih _ (Decoder.consumes_step s () hstep) _ _ hrel rfl

end Steps

end Updi

end BusDecode
