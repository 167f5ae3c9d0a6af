import BusDecode.Hvsp.Decoder
import BusDecode.Max7219
import BusDecode.Mcp23s17
import BusDecode.Proofs.Limits
import BusDecode.Proofs.Updi.CutShort

/-!
# Faults

A source that fails after a number of items, or a sink that does, ends the decoding with the same
failure and takes nothing back: the annotations accepted by then are the first ones of the sound
run.  If the failing call is never made, nothing else is different either (`Contained`).  It is so
for all the decoders, whatever their state and settings (`decoders_withstand`).

The failing call is seen from outside: what is read or written is `Watched` for it.
-/

set_option autoImplicit false

namespace BusDecode

/-! ## Watching for failures -/

/-- A source or sink that remembers whether a call has failed. -/
structure Watched (σ : Type) where
  inner : σ
  failed : Bool := false

namespace Watched

variable {σ κ α β : Type}

/-- Whether a call failed; the end of a stream is no failure. -/
def broke (answer : Except Halt α) : Bool :=
  match answer with
  | .ok _ => false
  | .error e => !e.isEndOfStream

theorem broke_error {e : Halt} (he : e ≠ .endOfStream) :
    broke (.error e : Except Halt α) = true := by
  cases e with
  | endOfStream => exact absurd rfl he
  | _ => rfl

/-- What is left after a call. -/
def after (w : Watched σ) (call : Except Halt α × σ) : Except Halt α × Watched σ :=
  (call.1, ⟨call.2, w.failed || broke call.1⟩)

instance source [Source σ α] : Source (Watched σ) α where
  recv w := w.after (Source.recv w.inner)
  peek w := w.after (Source.peek w.inner)
  putBack a w := { w with inner := Source.putBack a w.inner }
  takeEvents w := ((Source.takeEvents w.inner).1, { w with inner := (Source.takeEvents w.inner).2 })
  size w := Source.size w.inner
  size_recv_lt h := Source.size_recv_lt h
  size_recv_le w := Source.size_recv_le w.inner
  size_peek_le w := Source.size_peek_le w.inner
  size_takeEvents_le w := Source.size_takeEvents_le w.inner

instance sink [Sink κ β] : Sink (Watched κ) β where
  emit w item := w.after (Sink.emit w.inner item)

/-- A list that fails with `e` at every call once `k` items have been taken. -/
def failing (e : Halt) (k : Nat) (items : List α) : Watched (Limited (List α)) :=
  ⟨⟨items, e, some k⟩, false⟩

/-- A place for annotations that fails with `e` at every call once it has taken `n` of them. -/
def filling (e : Halt) (n : Nat) : Watched (Limited (Array β)) :=
  ⟨⟨#[], e, some n⟩, false⟩

/-- Nothing has failed yet, and the items left are these. -/
structure Reads (e : Halt) (w : Watched (Limited (List α))) (items : List α) : Prop where
  failed : w.failed = false
  items : w.inner.inner = items
  refusal : w.inner.refusal = e

/-- A call that is refused, or served from the list. -/
theorem Reads.after {e : Halt} {w : Watched (Limited (List α))} {items : List α}
    (he : e ≠ .endOfStream) (h : w.Reads e items) {call : Except Halt α × Limited (List α)}
    {call' : Except Halt α × List α}
    (hcall : call = (.error e, w.inner) ∨ call.1 = call'.1 ∧ call.2.inner = call'.2 ∧
      call.2.refusal = e ∧ broke call'.1 = false) :
    Source.Abreast e (fun w => w.failed = true) (Reads e) (w.after call) call' := by
  rcases hcall with rfl | ⟨hanswer, hinner, hrefusal, hbroke⟩
  · refine .inr ⟨rfl, ?_⟩
    rw [Watched.after, broke_error he, Bool.or_true]
  · refine .inl ⟨hanswer, ?_, hinner, hrefusal⟩
    rw [Watched.after, hanswer, hbroke, h.failed]
    rfl

/-- A list that fails reads as the list until it does. -/
theorem breaks {e : Halt} (he : e ≠ .endOfStream) :
    Source.Breaks e (fun w : Watched (Limited (List α)) => w.failed = true) (Reads e) where
  recv w _ h := by
    refine h.after he ?_
    obtain ⟨⟨items, _, allowance⟩, _⟩ := w
    obtain ⟨-, rfl, rfl⟩ := h
    by_cases hspent : allowance = some 0
    · exact .inl (if_pos hspent)
    · right
      cases items <;> simp [Source.recv, hspent, Limited.spend, broke, Halt.isEndOfStream]
  peek w _ h := by
    refine h.after he ?_
    obtain ⟨⟨items, _, allowance⟩, _⟩ := w
    obtain ⟨-, rfl, rfl⟩ := h
    by_cases hspent : allowance = some 0
    · exact .inl (if_pos hspent)
    · right
      cases items <;> simp [Source.peek, hspent, broke, Halt.isEndOfStream]
  takeEvents := by
    rintro ⟨⟨items, _, allowance⟩, _⟩ _ ⟨rfl, rfl, rfl⟩
    exact ⟨rfl, rfl, rfl, rfl⟩
  silent _ _ := rfl

/-- What a sink that fills up has seen of a run, besides what it has taken. -/
theorem playFrom_filling {δ : Type} {e : Halt} (he : e ≠ .endOfStream) (result : Except Halt α)
    (state : δ) (effects : List (Effect δ β)) (kept : Array β) (room : Option Nat)
    (done : List Event) :
    Trace.playFrom result state effects (⟨⟨kept, e, room⟩, false⟩ : Watched (Limited (Array β)))
        done =
      let played := Trace.playFrom result state effects (⟨kept, e, room⟩ : Limited (Array β)) done
      ⟨played.result, played.state,
        ⟨played.sink, room.any (· < (effects.filterMap Effect.item?).length)⟩, played.events⟩ := by
  induction effects generalizing kept room done with
  | nil => cases room <;> simp [Trace.playFrom]
  | cons effect rest ih =>
    cases effect with
    | note event => exact ih kept room (event :: done)
    | emit item fallback =>
      by_cases hfull : room = some 0
      · subst hfull
        simp [Trace.playFrom, Sink.emit, after, broke_error he]
      · have htaken : Sink.emit (⟨kept, e, room⟩ : Limited (Array β)) item =
            (.ok (), ⟨kept.push item, e, room.map (· - 1)⟩) := by
          simp [Sink.emit, hfull]
        have htaken' : Sink.emit (⟨⟨kept, e, room⟩, false⟩ : Watched (Limited (Array β))) item =
            (.ok (), ⟨⟨kept.push item, e, room.map (· - 1)⟩, false⟩) := by
          simp [Sink.emit, hfull, after, broke]
        rw [Trace.playFrom, Trace.playFrom, htaken, htaken']
        refine (ih _ _ done).trans ?_
        have hroom : (room.map (· - 1)).any (· < (rest.filterMap Effect.item?).length) =
            room.any (· < ((Effect.emit item fallback :: rest).filterMap Effect.item?).length) := by
          rcases room with _ | _ | n
          · rfl
          · exact absurd rfl hfull
          · simp [Effect.item?]
        rw [hroom]

end Watched

/-! ## Contained faults -/

/-- How a decoding went that may have met a fault, beside the sound one: what was accepted is how
that begins, a failing call ended everything, and without one nothing is different. -/
structure Contained {δ σ κ α : Type} (e : Halt) (failed : Bool) (run : Played (δ × σ) κ Unit)
    (kept : Array Annotation) (left : List α)
    (sound : Played (δ × List α) (Array Annotation) Unit) : Prop where
  accepted : kept.toList <+: sound.sink.toList
  failure : failed = true → run.result = .error e
  result : failed = false → run.result = sound.result
  complete : failed = false → kept = sound.sink
  decoder : failed = false → run.state.1 = sound.state.1
  unread : failed = false → left = sound.state.2
  events : failed = false → run.events = sound.events

namespace Contained

variable {δ σ κ α : Type} {e : Halt}

section Cases

variable {failed : Bool} {run : Played (δ × σ) κ Unit} {kept : Array Annotation} {left : List α}
  {sound : Played (δ × List α) (Array Annotation) Unit}

/-- A run that has met no fault and is the same as the sound one. -/
theorem unharmed (hfailed : failed = false) (hresult : run.result = sound.result)
    (hkept : kept = sound.sink) (hdecoder : run.state.1 = sound.state.1)
    (hleft : left = sound.state.2) (hevents : run.events = sound.events) :
    Contained e failed run kept left sound where
  accepted := by simp [hkept]
  failure hmet := absurd (hfailed.symm.trans hmet) Bool.false_ne_true
  result _ := hresult
  complete _ := hkept
  decoder _ := hdecoder
  unread _ := hleft
  events _ := hevents

/-- A run that a fault has ended. -/
theorem ended (hfailed : failed = true) (hresult : run.result = .error e)
    (haccepted : kept.toList <+: sound.sink.toList) : Contained e failed run kept left sound := by
  subst hfailed
  exact ⟨haccepted, fun _ => hresult, nofun, nofun, nofun, nofun, nofun⟩

/-- Events around the runs, and the end of the input taken for success. -/
theorem close (h : Contained e failed run kept left sound) (he : e ≠ .endOfStream)
    (before : List Event) (closing : Except Halt Unit → δ → List Event) :
    Contained e failed
      ((run.between before (closing run.result run.state.1)).mapResult Halt.untilEnd) kept left
      ((sound.between before (closing sound.result sound.state.1)).mapResult Halt.untilEnd) where
  accepted := h.accepted
  failure hfailed := by
    have hrun : Halt.untilEnd run.result = .error e := by
      rw [h.failure hfailed, Halt.untilEnd_error he]
    exact hrun
  result hfailed := congrArg Halt.untilEnd (h.result hfailed)
  complete := h.complete
  decoder := h.decoder
  unread := h.unread
  events hfailed := by
    simp only [Played.mapResult, Played.between, h.result hfailed, h.decoder hfailed,
      h.events hfailed]

end Cases

/-- A run that is cut short when its source fails. -/
theorem of_cut {t : Trace (δ × Watched (Limited (List α))) Annotation Halt Unit}
    {t' : Trace (δ × List α) Annotation Halt Unit}
    (h : t.Cut e (fun s => s.2.failed = true) (Source.Beside (Watched.Reads e)) t') :
    let run := t.play (#[] : Array Annotation)
    Contained e run.state.2.failed run run.sink run.state.2.inner.inner (t'.play #[]) := by
  rw [Trace.play_array, Trace.play_array]
  cases h with
  | whole result state shown =>
    obtain ⟨hdecoder, hfailed, hunread, -⟩ := state
    have hitems : t.items = t'.items := by rw [Trace.items_eq, Trace.items_eq, shown]
    have hevents : t.events = t'.events := by rw [Trace.events_eq, Trace.events_eq, shown]
    exact .unharmed hfailed result (by rw [hitems]) hdecoder hunread hevents
  | short result state shown =>
    refine .ended state result ?_
    rw [Trace.items_eq, Trace.items_eq]
    simpa using shown.filterMap Effect.item?

/-- A run whose sink fills up. -/
theorem of_filling (he : e ≠ .endOfStream) (t : Trace (δ × List α) Annotation Halt Unit) (n : Nat) :
    let run := t.play (Watched.filling e n)
    Contained e run.sink.failed run run.sink.inner.inner run.state.2 (t.play #[]) ∧
      (n < t.items.length → run.sink.failed = true ∧ run.sink.inner.inner.size = n) := by
  have hplay : t.play (Watched.filling e n) =
      let played := t.play (⟨#[], e, some n⟩ : Limited (Array Annotation))
      ⟨played.result, played.state, ⟨played.sink, decide (n < t.items.length)⟩, played.events⟩ :=
    Watched.playFrom_filling he t.result t.state t.effects #[] (some n) []
  rw [hplay, Trace.play_array]
  rcases Trace.play_limited t #[] e (some n) with ⟨left, hroom, hlimited⟩ |
    ⟨before, item, fallback, after, heffects, hroom, hlimited⟩
  · have hle : ¬n < t.items.length := Nat.not_lt.2 (hroom n rfl)
    rw [hlimited]
    exact ⟨.unharmed (decide_eq_false hle) rfl rfl rfl rfl rfl, fun hlt => absurd hlt hle⟩
  · have hitems : t.items =
        before.filterMap Effect.item? ++ item :: after.filterMap Effect.item? := by
      rw [Trace.items, heffects, List.filterMap_append]
      rfl
    obtain rfl : n = (before.filterMap Effect.item?).length := Option.some.inj hroom
    have hlt : (before.filterMap Effect.item?).length < t.items.length := by
      rw [hitems, List.length_append, List.length_cons]
      omega
    have hfailed := decide_eq_true hlt
    rw [hlimited]
    refine ⟨.ended hfailed rfl ?_, fun _ => ⟨hfailed, by simp⟩⟩
    rw [hitems]
    simp

end Contained

/-! ## The decoders -/

namespace Updi.Decoder

variable {σ κ : Type} [Source σ Sample] [Sink κ Annotation] {d : Decoder}

/-- A decoder on a line as the two of them. -/
def OnLine.pair (s : OnLine σ) : Decoder × σ :=
  (s.decoder, s.source)

/-- Decoding at a known sample rate: a run that is played and then closed. -/
theorem decode_known {hz : Nat} (hrate : d.config.samplerate = some hz) (source : σ) (sink : κ) :
    (d.decode source sink).mapState OnLine.pair =
      let played := ((run.run ⟨d, source⟩).mapState OnLine.pair).play sink
      (played.between [d.beginning hz] (closing played.result played.state.1)).mapResult
        Halt.untilEnd := by
  unfold decode
  simp only [hrate, Trace.play_mapState]
  rfl

/-- Without a sample rate nothing is read or written. -/
theorem decode_unknown (hrate : d.config.samplerate = none) (source : σ) (sink : κ) :
    (d.decode source sink).mapState OnLine.pair =
      ⟨.error (.undecodable .missingSampleRate), (d, source), sink, []⟩ := by
  unfold decode
  simp only [hrate]
  rfl

end Updi.Decoder

/-- A decoding withstands a failure if, for any decoder and items, it is contained when it comes
from the source after `k` items or from the sink after `n` annotations, and in the latter case all
of these `n` annotations are accepted if there are more in the sound run. -/
structure Withstands {δ α : Type} (e : Halt)
    (decode : ∀ {σ κ : Type} [Source σ α] [Sink κ Annotation], δ → σ → κ → Played (δ × σ) κ Unit) :
    Prop where
  source : ∀ (d : δ) (items : List α) (k : Nat),
    let run := decode d (Watched.failing e k items) (#[] : Array Annotation)
    Contained e run.state.2.failed run run.sink run.state.2.inner.inner (decode d items #[])
  sink : ∀ (d : δ) (items : List α) (n : Nat),
    let run := decode d items (Watched.filling e n)
    Contained e run.sink.failed run run.sink.inner.inner run.state.2 (decode d items #[])
  full : ∀ (d : δ) (items : List α) (n : Nat),
    n < (decode d items (#[] : Array Annotation)).sink.size →
    let run := decode d items (Watched.filling e n)
    run.sink.failed = true ∧ run.sink.inner.inner.size = n

section Decoders

variable {δ α : Type} {e : Halt}

/-- Draining a source withstands its faults whatever is done with the items. -/
theorem withstands_drain (he : e ≠ .endOfStream) (feed : α → Script δ Annotation Halt Unit) :
    Withstands e fun d source sink => ((Script.drain feed).run (d, source)).play sink where
  source d items k :=
    .of_cut (Script.Cut.drain (Watched.breaks he) he feed _ _ ⟨rfl, rfl, rfl, rfl⟩)
  sink d items n := (Contained.of_filling he _ n).1
  full d items n hn := by
    refine (Contained.of_filling he _ n).2 ?_
    rw [Trace.play_array] at hn
    simpa using hn

theorem withstands_updi (he : e ≠ .endOfStream) :
    Withstands e fun (d : Updi.Decoder) source sink =>
      (d.decode source sink).mapState Updi.Decoder.OnLine.pair where
  source d items k := by
    dsimp only
    cases hrate : d.config.samplerate with
    | none =>
      rw [Updi.Decoder.decode_unknown hrate, Updi.Decoder.decode_unknown hrate]
      exact .unharmed rfl rfl rfl rfl rfl rfl
    | some hz =>
      rw [Updi.Decoder.decode_known hrate, Updi.Decoder.decode_known hrate]
      have hrun := Updi.cut_run (Watched.breaks he) he ⟨d, Watched.failing e k items⟩ ⟨d, items⟩
        ⟨rfl, rfl, rfl, rfl⟩
      refine (Contained.of_cut (hrun.mapState ?_ ?_)).close he _ _
      · exact fun _ _ h => ⟨h.decoder, h.source⟩
      · exact fun _ h => h
  sink d items n := by
    dsimp only
    cases hrate : d.config.samplerate with
    | none =>
      rw [Updi.Decoder.decode_unknown hrate, Updi.Decoder.decode_unknown hrate]
      exact .unharmed rfl rfl rfl rfl rfl rfl
    | some hz =>
      rw [Updi.Decoder.decode_known hrate, Updi.Decoder.decode_known hrate]
      exact (Contained.of_filling he _ n).1.close he _ _
  full d items n hn := by
    dsimp only at hn ⊢
    cases hrate : d.config.samplerate with
    | none =>
      rw [Updi.Decoder.decode_unknown hrate] at hn
      exact absurd hn (Nat.not_lt_zero n)
    | some hz =>
      rw [Updi.Decoder.decode_known hrate] at hn ⊢
      refine (Contained.of_filling he _ n).2 ?_
      dsimp only [Played.mapResult, Played.between] at hn
      rw [Trace.play_array] at hn
      simpa using hn

end Decoders

/-- **Faults change nothing that came before them.**  Whichever decoder it is, whatever its state
and settings and the items it reads, and whenever its source or its sink fails for good. -/
theorem decoders_withstand {e : Halt} (he : e ≠ .endOfStream) :
    (Withstands e fun (d : Updi.Decoder) source sink =>
      (d.decode source sink).mapState Updi.Decoder.OnLine.pair) ∧
    (Withstands e fun (d : Hvsp.Decoder) source sink =>
      (Hvsp.Decoder.decode.run (d, source)).play sink) ∧
    (Withstands e fun (d : Mcp23s17.Decoder) source sink =>
      (Mcp23s17.Decoder.decode.run (d, source)).play sink) ∧
    (Withstands e fun (d : Max7219.Decoder) source sink =>
      (Max7219.Decoder.decode.run (d, source)).play sink) :=
  ⟨withstands_updi he, withstands_drain he _, withstands_drain he _, withstands_drain he _⟩

/-- A source that fails within the second of two windows, and a sink that fails right away. -/
theorem decoders_withstand_unplugged :
    let packets : List Spi.Packet := [.chipSelect true 0 0, .data ⟨3, 1, 9⟩ none,
      .data ⟨0x7E, 9, 17⟩ none, .chipSelect false 26 27, .chipSelect true 40 40,
      .data ⟨0x0D, 41, 49⟩ none, .chipSelect false 60 61]
    let d : Max7219.Decoder := {}
    let cut := (Max7219.Decoder.decode.run (d, Watched.failing .receiveFailed 5 packets)).play
      (#[] : Array Annotation)
    let full := (Max7219.Decoder.decode.run (d, packets)).play
      (Watched.filling .receiveFailed 0 : Watched (Limited (Array Annotation)))
    Halt.receiveFailed ≠ .endOfStream ∧
      cut.result = .error .receiveFailed ∧
      cut.sink.toList = [.field "digit" 1 17 "Digit 3: 7E"] ∧
      full.result = .error .receiveFailed ∧ full.sink.inner.inner.toList = [] := by
  intro packets d cut full
  have he : Halt.receiveFailed ≠ .endOfStream := by decide
  obtain ⟨-, -, -, hmax⟩ := decoders_withstand he
  have hcut : cut.state.2.failed = true := by decide +kernel
  have hfull := hmax.full d packets 0 (by decide +kernel)
  refine ⟨he, (hmax.source d packets 5).failure hcut, by decide +kernel,
    (hmax.sink d packets 0).failure hfull.1, ?_⟩
  exact Array.toList_eq_nil_iff.2 (Array.size_eq_zero_iff.1 hfull.2)

end BusDecode
