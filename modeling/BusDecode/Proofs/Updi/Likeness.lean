import BusDecode.Proofs.Updi.Matching

/-!
# Two decoders on one line

Two sessions are twins if they agree in all that can be seen of them but their lines and the number
of syncs abandoned so far, and their lines look the same to waits and skips (`LooksSame`).
Everything that is done on a line does alike on twins (`Reception.congruence`), down to the decoding
of whole lines (`run_alike`).
-/

set_option autoImplicit false

namespace BusDecode

namespace Updi

open Script (Alike)

variable {σ τ : Type}

/-- From related positions two moves answer the same and lead to related positions. -/
def SameMove [Source σ Sample] [Source τ Sample] (K : LineCursor × σ → LineCursor × τ → Prop)
    (step : LineCursor → σ → Except Halt Bool × LineCursor × σ)
    (step' : LineCursor → τ → Except Halt Bool × LineCursor × τ) : Prop :=
  ∀ p q, K p q →
    (step p.1 p.2).1 = (step' q.1 q.2).1 ∧
    K ((step p.1 p.2).2.1, (Source.takeEvents (step p.1 p.2).2.2).2)
      ((step' q.1 q.2).2.1, (Source.takeEvents (step' q.1 q.2).2.2).2)

/-- A relation of positions on two lines that waits and skips cannot tell apart. -/
structure LooksSame [Source σ Sample] [Source τ Sample]
    (K : LineCursor × σ → LineCursor × τ → Prop) : Prop where
  now : ∀ p q, K p q → p.1.now = q.1.now
  wait : ∀ edge budget,
    SameMove K (LineCursor.waitEdge edge budget) (LineCursor.waitEdge edge budget)
  skip : ∀ count, SameMove K (LineCursor.skip count) (LineCursor.skip count)

/-- Decoders that agree in everything but the line they read, and one has abandoned more syncs. -/
structure Decoder.Twin (more : Nat) (d d' : Decoder) : Prop where
  config : d.config = d'.config
  bitTime : d.bitTime = d'.bitTime
  syncStart : d.syncStart = d'.syncStart
  stats : { d.stats with syncAbandoned := d.stats.syncAbandoned + more } = d'.stats

/-- Sessions that agree in all but their lines, which are related, and the syncs abandoned. -/
structure Session.Twin (K : LineCursor × σ → LineCursor × τ → Prop) (more : Nat) (s : Session σ)
    (t : Session τ) : Prop where
  line : K (s.decoder.cursor, s.source) (t.decoder.cursor, t.source)
  decoder : s.decoder.Twin more t.decoder
  commandStart : s.commandStart = t.commandStart
  byteStart : s.byteStart = t.byteStart
  valueStart : s.valueStart = t.valueStart
  frameEnd : s.frameEnd = t.frameEnd

/-- Twins but for how far frames reached, which the next attempt at a sync forgets. -/
def Session.NearTwin (K : LineCursor × σ → LineCursor × τ → Prop) (more : Nat) (s : Session σ)
    (t : Session τ) : Prop :=
  ∀ n, Session.Twin K more { s with frameEnd := n } { t with frameEnd := n }

variable {K : LineCursor × σ → LineCursor × τ → Prop} {more : Nat} {ε : Type}

/-- Counting what both count keeps them twins. -/
theorem Session.Twin.count {f : Stats → Stats}
    (hf : ∀ c : Stats, f { c with syncAbandoned := c.syncAbandoned + more } =
      { f c with syncAbandoned := (f c).syncAbandoned + more })
    {s : Session σ} {t : Session τ} (h : s.Twin K more t) :
    (s.count f).Twin K more (t.count f) where
  line := h.line
  decoder := ⟨h.decoder.config, h.decoder.bitTime, h.decoder.syncStart, by
    change _ = f t.decoder.stats
    rw [← h.decoder.stats, hf]
    rfl⟩
  commandStart := h.commandStart
  byteStart := h.byteStart
  valueStart := h.valueStart
  frameEnd := h.frameEnd

theorem Session.Twin.peers (hnow : ∀ p q, K p q → p.1.now = q.1.now) :
    Peers (Session.Twin K more) where
  now _ _ h := hnow _ _ h.line
  config _ _ h := h.decoder.config
  bitTime _ _ h := h.decoder.bitTime
  syncStart _ _ h := h.decoder.syncStart
  commandStart _ _ h := h.commandStart
  byteStart _ _ h := h.byteStart
  valueStart _ _ h := h.valueStart
  frameEnd _ _ h := h.frameEnd
  setBitTime _ _ _ h := ⟨h.line, ⟨h.decoder.config, rfl, h.decoder.syncStart, h.decoder.stats⟩,
    h.commandStart, h.byteStart, h.valueStart, h.frameEnd⟩
  setSyncStart _ _ _ h := ⟨h.line, ⟨h.decoder.config, h.decoder.bitTime, rfl, h.decoder.stats⟩,
    h.commandStart, h.byteStart, h.valueStart, h.frameEnd⟩
  setCommandStart _ _ _ h := ⟨h.line, h.decoder, rfl, h.byteStart, h.valueStart, h.frameEnd⟩
  setByteStart _ _ _ h := ⟨h.line, h.decoder, h.commandStart, rfl, h.valueStart, h.frameEnd⟩
  setValueStart _ _ _ h := ⟨h.line, h.decoder, h.commandStart, h.byteStart, rfl, h.frameEnd⟩
  setFrameEnd _ _ _ h := ⟨h.line, h.decoder, h.commandStart, h.byteStart, h.valueStart, rfl⟩
  count _ _ _ hf h := h.count fun c => hf c more

variable [Source σ Sample] [Source τ Sample]

theorem Session.NearTwin.now (hK : LooksSame K) {s : Session σ} {t : Session τ}
    (h : s.NearTwin K more t) : s.now = t.now :=
  hK.now _ _ (h 0).line

namespace Reception

theorem alike_move {step : LineCursor → σ → Except Halt Bool × LineCursor × σ}
    {step' : LineCursor → τ → Except Halt Bool × LineCursor × τ} (h : SameMove K step step') :
    Alike (Session.Twin K more) (move step) (move step') := by
  refine .lift fun s t hst => ?_
  obtain ⟨hanswer, hline⟩ := h _ _ hst.line
  exact ⟨hanswer, hline, ⟨hst.decoder.config, hst.decoder.bitTime, hst.decoder.syncStart,
    hst.decoder.stats⟩, hst.commandStart, hst.byteStart, hst.valueStart, hst.frameEnd⟩

variable (hK : LooksSame K)

include hK

/-- Everything done to receive goes alike on twins. -/
theorem congruence : Congruence (σ := σ) (τ := τ) (Session.Twin K more)
    fun _ _ _ => Alike (Session.Twin K more) :=
  congruence_alike (Session.Twin.peers hK.now) (fun edge budget => alike_move (hK.wait edge budget))
    fun count => alike_move (hK.skip count)

/-- Attempts are alike once their falling edges are. -/
theorem trySync_alike {s : Session σ} {t : Session τ}
    (hwait : ((waitEdge .falling none).run s).Alike (Session.NearTwin K more)
      ((waitEdge .falling none).run t))
    (herror : ∀ e, ((waitEdge .falling none).run s).result = .error e →
      Session.Twin K more ((waitEdge .falling none).run s).state
        ((waitEdge .falling none).run t).state) :
    (trySync.run s).Alike (Session.Twin K more) (trySync.run t) := by
  refine hwait.bind_via herror fun _ _ hst => ?_
  have hnow : ((Script.read Session.now : Reception σ Halt Nat).run _).Alike
      (Session.NearTwin K more) ((Script.read Session.now).run _) :=
    ⟨congrArg Except.ok (hst.now hK), hst, rfl⟩
  refine hnow.bind_via (by simp) fun start _ hst => ?_
  refine Trace.Alike.bind ⟨rfl, hst start, rfl⟩ fun _ _ hst => ?_
  exact (congruence hK).attemptAt start _ _ hst

omit hK in
theorem attemptSync_alike {s : Session σ} {t : Session τ}
    (htry : (trySync.run s).Alike (Session.Twin K more) (trySync.run t)) :
    (attemptSync.run s).Alike (Session.Twin K more) (attemptSync.run t) := by
  refine htry.bind fun _ _ hst => Alike.ite (.answer _) ?_ _ _ hst
  exact .bind (.modify fun _ _ h => h.count fun c => by simp [Nat.add_right_comm]) fun _ =>
    .answer _

/-- Two commands are alike once their syncs are. -/
theorem command_alike {s : Session σ} {t : Session τ}
    (hsync : (sync.run s).Alike (Session.Twin K more) (sync.run t)) :
    (command.run s).Alike (Session.Twin K more) (command.run t) :=
  Trace.alike_iff.2 (command_matches (Trace.alike_iff.1 hsync)
    (Script.alike_iff.1 (congruence hK).afterSync) (fun _ _ h => h) fun _ _ _ h => h)

end Reception

/-! ## Steps -/

section Steps

open Decoder (OnLine)

/-- Decoders that are twins on related lines. -/
structure Decoder.OnLine.Twin (K : LineCursor × σ → LineCursor × τ → Prop) (more : Nat)
    (s : OnLine σ) (t : OnLine τ) : Prop where
  line : K (s.decoder.cursor, s.source) (t.decoder.cursor, t.source)
  decoder : s.decoder.Twin more t.decoder

variable {s : OnLine σ} {t : OnLine τ}

/-- Steps are alike if the commands are that they decode. -/
theorem step_alike (hrate : s.decoder.config.samplerate = t.decoder.config.samplerate)
    (hnone : s.decoder.config.samplerate = none → s.Twin K more t)
    (hcommand : (Reception.command.run { decoder := s.decoder, source := s.source }).Alike
      (Session.Twin K more) (Reception.command.run { decoder := t.decoder, source := t.source })) :
    (Decoder.step.run s).Alike (OnLine.Twin K more) (Decoder.step.run t) := by
  have hview : ∀ (s : Session σ) (t : Session τ), s.Twin K more t →
      OnLine.Twin K more ⟨s.decoder, s.source⟩ ⟨t.decoder, t.source⟩ :=
    fun _ _ h => ⟨h.line, h.decoder⟩
  exact Trace.alike_iff.2 (Decoder.step_matches hrate (fun h _ => hnone h) hview (fun _ => hview)
    (Trace.alike_iff.1 hcommand))

variable (hK : LooksSame K)

include hK

theorem alike_step : Alike (OnLine.Twin K more)
    (Decoder.step : Script (OnLine σ) Annotation Halt Unit) Decoder.step := by
  intro s t h
  refine step_alike (congrArg Config.samplerate h.decoder.config) (fun _ => h) ?_
  exact Reception.command_alike hK
    ((Reception.congruence hK).sync _ _ ⟨h.line, h.decoder, rfl, rfl, rfl, rfl⟩)

/-- Two runs are alike once their first steps are. -/
theorem run_alike (h : (Decoder.step.run s).Alike (OnLine.Twin K more) (Decoder.step.run t)) :
    (Decoder.run.run s).Alike (OnLine.Twin K more) (Decoder.run.run t) :=
  Trace.alike_iff.2 (Decoder.run_matches (Trace.alike_iff.1 h) (Script.alike_iff.1 (alike_step hK)))

end Steps

end Updi

end BusDecode
