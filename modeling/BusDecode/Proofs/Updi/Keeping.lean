import BusDecode.Proofs.Updi.Refinement

/-!
# What decoding keeps

Whatever a decoder does on a line comes down to a few moves: waits, skips, bookkeeping, the count of
a broken frame, and attempts at a sync.  A relation of sessions that is `KeptByMoves` is kept while
bits and bytes are read; if attempts at a sync keep it too, so does a whole command
(`keeps_command`), and then what it says about decoders holds from one call to the next
(`keeps_step`, `decode_keeps`).
-/

set_option autoImplicit false

namespace BusDecode

namespace Updi

open Script (Keeps Shows)

variable {σ : Type} [Source σ Sample]

/-- A relation of sessions that is kept by all moves but those by which a sync becomes one. -/
structure KeptByMoves (r : Session σ → Session σ → Prop) : Prop where
  wait : ∀ edge budget, Keeps r (Reception.waitEdge edge budget)
  skip : ∀ count, Keeps r (Reception.skip count)
  aside : ∀ s s', Aside s s' → r s s'
  frameError : ∀ s : Session σ, r s (s.count fun c => { c with frameErrors := c.frameErrors + 1 })

/-- No period has been adopted, and no sync has become one. -/
structure Unsynced (s s' : Session σ) : Prop where
  config : s'.decoder.config = s.decoder.config
  bitTime : s'.decoder.bitTime = s.decoder.bitTime
  syncs : s'.decoder.stats.syncs = s.decoder.stats.syncs

instance : Std.Refl (Unsynced : Session σ → Session σ → Prop) :=
  ⟨fun _ => ⟨rfl, rfl, rfl⟩⟩

instance : Trans (Unsynced : Session σ → Session σ → Prop) Unsynced Unsynced :=
  ⟨fun h h' => ⟨h'.config.trans h.config, h'.bitTime.trans h.bitTime, h'.syncs.trans h.syncs⟩⟩

omit [Source σ Sample] in
theorem Aside.unsynced {s s' : Session σ} (h : Aside s s') : Unsynced s s' := by
  obtain ⟨n, hd⟩ := h.decoder
  exact ⟨by rw [hd], by rw [hd], by rw [hd]⟩

theorem unsynced_moves : KeptByMoves (Unsynced : Session σ → Session σ → Prop) where
  wait _ _ _ := ⟨rfl, rfl, rfl⟩
  skip _ _ := ⟨rfl, rfl, rfl⟩
  aside _ _ h := h.unsynced
  frameError _ := ⟨rfl, rfl, rfl⟩

namespace Reception

variable {r : Session σ → Session σ → Prop} [Std.Refl r] [Trans r r r]

/-! ## Bits and bytes -/

omit [Std.Refl r] [Trans r r r] in
/-- A move hands on nothing, so all there is to see of it is what it keeps. -/
theorem shows_move {p : Annotation → Prop} {step : LineCursor → σ → Except Halt Bool × LineCursor × σ}
    (h : Keeps r (move step)) : Shows r p (move step) :=
  fun s => ⟨h s, by simp [move]⟩

theorem shows_dataBit (h : KeptByMoves r) (label : Option String) :
    Shows r (fun _ => True) (dataBit label : Reception σ Halt Bool) :=
  .bind (.read _) fun _ =>
    .bind (.bind (.read _) fun _ =>
        .bind (shows_move (h.skip _)) fun _ => .bind (shows_move (h.skip _)) fun _ => .answer _)
      fun _ => .bind (.emit fun _ => trivial) fun _ => .answer _

theorem shows_dataBits (h : KeptByMoves r) (n : Nat) :
    Shows r (fun _ => True) (dataBits n : Reception σ Halt (List Bool)) := by
  induction n with
  | zero => exact .answer _
  | succ n ih => exact .bind (shows_dataBit h _) fun _ => .bind ih fun _ => .answer _

theorem shows_stopBits (h : KeptByMoves r) :
    Shows r (fun _ => True) (stopBits : Reception σ Halt Bool) :=
  .bind (.read _) fun _ => .bind (.read _) fun _ => .bind (shows_move (h.skip _)) fun _ =>
    .bind (.modify fun s => h.aside _ _ ⟨rfl, s.decoder.stats.commands, rfl⟩) fun _ =>
      .bind (.ite (.emit fun _ => trivial) (.emit fun _ => trivial)) fun _ => .answer _

theorem shows_startBit (h : KeptByMoves r) :
    Shows r (fun _ => True) (startBit : Reception σ Interrupt Nat) :=
  .bind (.mapError (shows_move (h.wait _ _)) _) fun _ => .bind (.read _) fun _ =>
    .bind (.read _) fun _ => .bind (.mapError (shows_move (h.skip _)) _) fun _ =>
      .ite (.bind (.note _) fun _ => .bind (.modify h.frameError) fun _ => .fail _)
        (.bind (.mapError (shows_move (h.skip _)) _) fun _ =>
          .bind (.emit fun _ => trivial) fun _ => .answer _)

theorem shows_readByte (h : KeptByMoves r) :
    Shows r (fun _ => True) (readByte : Reception σ Interrupt UInt8) :=
  .bind (shows_startBit h) fun _ => .bind (.mapError (shows_dataBits h _) _) fun _ =>
    .bind (.mapError (shows_stopBits h) _) fun _ =>
      .ite (.bind (.modify fun s => h.aside _ _ ⟨rfl, s.decoder.stats.commands, rfl⟩) fun _ =>
          .bind (.note _) fun _ => .bind (.emit fun _ => trivial) fun _ => .answer _)
        (.bind (.note _) fun _ => .bind (.modify h.frameError) fun _ => .fail _)

/-! ## Measuring -/

theorem shows_measureBits (h : KeptByMoves r) (maxBitTime n : Nat) :
    Shows r (fun _ => True) (measureBits maxBitTime n : Reception σ Halt Bool) := by
  induction n with
  | zero => exact .answer _
  | succ n ih =>
    exact .bind (.read _) fun _ => .bind (shows_move (h.wait _ _)) fun _ => .bind (.read _) fun _ =>
      .ite (.bind (.note _) fun _ => .answer _) (.bind (.emit fun _ => trivial) fun _ => ih)

theorem shows_finishSync (h : KeptByMoves r) (start : Nat) :
    Shows r (fun _ => True) (finishSync start : Reception σ Halt Bool) :=
  .bind (shows_dataBit h _) fun _ => .bind (shows_stopBits h) fun _ =>
    .ite (.bind (.emit fun _ => trivial) fun _ => .bind (.emit fun _ => trivial) fun _ => .answer _)
      (.bind (.note _) fun _ => .answer _)

theorem keeps_measureSync (h : KeptByMoves r)
    (hperiod : ∀ (s : Session σ) (n : Nat), r s { s with decoder.bitTime := n }) (start : Nat) :
    Keeps r (measureSync start : Reception σ Halt Bool) :=
  .bind (.read _) fun _ => .bind (h.wait _ _) fun _ => .bind (.read _) fun _ =>
    .ite (.bind (.note _) fun _ => .answer _) <| .bind (.emit _) fun _ =>
      .bind (shows_measureBits h _ _).state fun _ => .ite
        (.bind (.read _) fun _ => .ite (.fail _) <| .ite (.answer _) <|
          .bind (.modify fun s => hperiod s _) fun _ => (shows_finishSync h _).state)
        (.answer _)

end Reception

/-! ## Commands -/

section Commands

variable {r : Session σ → Session σ → Prop} [Std.Refl r] [Trans r r r]

/-- A run that follows a grammar keeps what bytes, syncs and bookkeeping keep. -/
theorem Follows.keeps {α β : Type} {Q : α → β → Session σ → Prop} {g : Grammar β} {s : Session σ}
    {t : Trace (Session σ) Annotation Interrupt α} (hmoves : KeptByMoves r)
    (hsync : Keeps r (Reception.sync : Reception σ Halt Unit)) (h : Follows Q g s t) :
    r s t.state := by
  induction h with
  | done h => exact Std.Refl.refl _
  | refuse e s => exact Std.Refl.refl _
  | say x hx hrow h ih => exact ih
  | note event h ih => exact ih
  | aside hs h ih => exact Trans.trans (hmoves.aside _ _ hs) ih
  | @byte k s s' b effects t hr h ih =>
    have hbyte := (Reception.shows_readByte hmoves).state s
    rw [hr] at hbyte
    exact Trans.trans hbyte ih
  | @noByte s s' e effects k hr =>
    have hbyte := (Reception.shows_readByte hmoves).state s
    rwa [hr] at hbyte
  | @resync g s s' effects t hr h ih =>
    have hsynced := hsync s
    rw [hr] at hsynced
    exact Trans.trans hsynced ih
  | @noResync s s' e effects k hr =>
    have hsynced := hsync s
    rwa [hr] at hsynced

theorem keeps_command (hmoves : KeptByMoves r)
    (hattempt : Keeps r (Reception.attemptSync : Reception σ Halt (Option Unit))) :
    Keeps r (Reception.command : Reception σ Halt Unit) := by
  have hsync : Keeps r (Reception.sync : Reception σ Halt Unit) := .loop hattempt _ _
  refine .bind hsync fun _ => .bind (.attempt fun s => ?_) fun outcome => ?_
  · exact (follows_afterSync s).keeps hmoves hsync
  · split
    · exact .answer _
    · exact .fail _

end Commands

/-! ## Calls -/

section Calls

open Decoder (OnLine)

instance {γ : Type} {p : Decoder → Decoder → Prop} [Std.Refl p] (view : γ → Decoder) :
    Std.Refl (InvImage p view) :=
  ⟨fun s => Std.Refl.refl (view s)⟩

instance {γ : Type} {p : Decoder → Decoder → Prop} [Trans p p p] (view : γ → Decoder) :
    Trans (InvImage p view) (InvImage p view) (InvImage p view) :=
  ⟨fun h h' => Trans.trans (r := p) (s := p) h h'⟩

variable {p : Decoder → Decoder → Prop}

theorem keeps_step [Std.Refl p] (h : Keeps (InvImage p Session.decoder)
    (Reception.command : Reception σ Halt Unit)) :
    Keeps (InvImage p OnLine.decoder) (Decoder.step : Script (OnLine σ) Annotation Halt Unit) := by
  intro s
  unfold Decoder.step
  dsimp only
  split
  · exact Std.Refl.refl s
  · exact h { decoder := s.decoder, source := s.source }

theorem keeps_run [Std.Refl p] [Trans p p p] (h : Keeps (InvImage p OnLine.decoder)
    (Decoder.step : Script (OnLine σ) Annotation Halt Unit)) :
    Keeps (InvImage p OnLine.decoder) (Decoder.run : Script (OnLine σ) Annotation Halt Unit) := by
  have hon : Keeps (InvImage p OnLine.decoder)
      (Decoder.stepOn : Script (OnLine σ) Annotation Empty (Option Halt)) := by
    unfold Decoder.stepOn
    rw [← bind_pure_comp]
    exact .bind (.attempt h) fun _ => .answer _
  intro s
  have hsteps : InvImage p OnLine.decoder s (Decoder.steps.run s).state :=
    Keeps.loop hon _ _ s
  unfold Decoder.run
  dsimp only
  rcases hrun : Decoder.steps.run s with ⟨e | e, s', effects⟩
  · exact e.elim
  · rwa [hrun] at hsteps

/-- From before a step to after it, if everything it hands on is taken. -/
theorem step_keeps (h : Keeps (InvImage p OnLine.decoder)
    (Decoder.step : Script (OnLine σ) Annotation Halt Unit)) (d : Decoder) (source : σ) :
    p d ((Decoder.step.run ⟨d, source⟩).play (#[] : Array Annotation)).state.decoder := by
  rw [Trace.play_array]
  exact h ⟨d, source⟩

/-- From before the decoding of a line to after it, if everything is taken. -/
theorem decode_keeps [Std.Refl p] [Trans p p p] (h : Keeps (InvImage p OnLine.decoder)
    (Decoder.step : Script (OnLine σ) Annotation Halt Unit)) (d : Decoder) (source : σ) :
    p d (d.decode source (#[] : Array Annotation)).state.decoder := by
  unfold Decoder.decode
  split
  · exact Std.Refl.refl d
  · change p d ((Decoder.run.run ⟨d, source⟩).play (#[] : Array Annotation)).state.decoder
    rw [Trace.play_array]
    exact keeps_run h ⟨d, source⟩

end Calls

end Updi

end BusDecode
