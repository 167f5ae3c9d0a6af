import BusDecode.Proofs.LineCursor.CutShort
import BusDecode.Proofs.Updi.Beginning
import BusDecode.Proofs.Updi.Matching
import BusDecode.Proofs.Updi.Order

/-!
# UPDI on a delayed line

On a line on which everything comes later a cursor moves as on the line itself, later by the delay
(`LineCursor.waitEdge_delay`, `skip_delay`).  What a decoder remembers of the line is later too,
unless it has not been set, so all that is done to receive is a unison (`Reception.unison_delayed`)
and hands on later annotations.  None of these starts at a time that has not been set, because none
starts before the first sample; so decoding commutes with the delay (`decode_delay`).
-/

set_option autoImplicit false

namespace BusDecode

/-- The same sample at a later time. -/
def Sample.delay (c : Nat) (x : Sample) : Sample :=
  { x with time := x.time + c }

/-! ## Moves -/

namespace LineCursor

/-- The same cursor at a later time. -/
def delay (c : Nat) (cursor : LineCursor) : LineCursor :=
  { cursor with now := cursor.now + c }

/-- What comes of a move on a delayed line. -/
def delayed (c : Nat) (moved : Except Halt Bool × LineCursor × List Sample) :
    Except Halt Bool × LineCursor × List Sample :=
  (moved.1, moved.2.1.delay c, moved.2.2.map (Sample.delay c))

variable (c : Nat)

theorem seek_delay (edge : Edge) (deadline : Option Nat) (cursor : LineCursor) (s : List Sample) :
    seek edge (deadline.map (· + c)) (cursor.delay c) (s.map (Sample.delay c)) =
      delayed c (seek edge deadline cursor s) := by
  induction s generalizing cursor with
  | nil => rw [List.map_nil, seek_nil, seek_nil]; rfl
  | cons x s ih =>
    have hfilter : (deadline.map (· + c)).filter (· < x.time + c) =
        (deadline.filter (· < x.time)).map (· + c) := by
      cases deadline <;> simp [Option.filter]
    rw [List.map_cons, seek_eq, seek_eq edge deadline]
    simp only [Source.peek_cons, Source.recv_cons, Sample.delay, hfilter]
    cases deadline.filter (· < x.time) with
    | some late => rfl
    | none =>
      simp only [Option.map_none, delay, Nat.add_max_add_right]
      split
      · exact ih cursor
      split
      · rfl
      · exact ih { cursor with level := x.level, now := max x.time cursor.now }

theorem advance_delay (target : Nat) (cursor : LineCursor) (s : List Sample) :
    advance (target + c) (cursor.delay c) (s.map (Sample.delay c)) =
      delayed c (advance target cursor s) := by
  induction s generalizing cursor with
  | nil => rw [List.map_nil, advance_nil, advance_nil]; rfl
  | cons x s ih =>
    rw [List.map_cons, advance_cons, advance_cons]
    simp only [Sample.delay, Nat.add_lt_add_iff_right, Nat.add_right_cancel_iff]
    split
    · rfl
    split
    · rfl
    · exact ih { cursor with level := x.level }

variable {cursor : LineCursor} (h : cursor.primed = true)

include h

theorem waitEdge_delay (edge : Edge) (budget : Option Nat) (s : List Sample) :
    waitEdge edge budget (cursor.delay c) (s.map (Sample.delay c)) =
      delayed c (waitEdge edge budget cursor s) := by
  rw [waitEdge_primed h, waitEdge_primed (by exact h), ← seek_delay]
  cases budget with
  | none => rfl
  | some n => rw [Option.map_some, Option.map_some, Option.map_some, delay, Nat.add_right_comm]

theorem skip_delay (count : Nat) (s : List Sample) :
    skip count (cursor.delay c) (s.map (Sample.delay c)) = delayed c (skip count cursor s) := by
  rw [skip_primed h, skip_primed (by exact h), ← advance_delay, delay, Nat.add_right_comm]

end LineCursor

namespace Updi

open Script (Matches)
open Decoder (OnLine)
open LineCursor (justRead)

/-! ## Sessions -/

/-- A decoder on a delayed line, which has begun: what it remembers of the line is later. -/
structure Decoder.Delayed (c : Nat) (d d' : Decoder) : Prop where
  primed : d.cursor.primed = true
  cursor : d'.cursor = d.cursor.delay c
  config : d.config = d'.config
  bitTime : d.bitTime = d'.bitTime
  syncStart : Later c d.syncStart d'.syncStart
  stats : d.stats = d'.stats

/-- A session on a delayed line. -/
structure Session.Delayed (c : Nat) (s t : Session (List Sample)) : Prop where
  decoder : s.decoder.Delayed c t.decoder
  source : t.source = s.source.map (Sample.delay c)
  commandStart : Option.Rel (Later c) s.commandStart t.commandStart
  byteStart : Later c s.byteStart t.byteStart
  valueStart : Later c s.valueStart t.valueStart
  frameEnd : Later c s.frameEnd t.frameEnd

theorem Session.Delayed.staggered (c : Nat) : Staggered c (Session.Delayed c) where
  now _ _ h := congrArg LineCursor.now h.decoder.cursor
  config _ _ h := h.decoder.config
  bitTime _ _ h := h.decoder.bitTime
  syncStart _ _ h := h.decoder.syncStart
  commandStart _ _ h := h.commandStart
  byteStart _ _ h := h.byteStart
  valueStart _ _ h := h.valueStart
  frameEnd _ _ h := h.frameEnd
  setBitTime _ _ _ h := { h with decoder := { h.decoder with bitTime := rfl } }
  setSyncStart _ _ _ _ hab h := { h with decoder := { h.decoder with syncStart := hab } }
  setCommandStart _ _ _ _ hab h := { h with commandStart := hab }
  setByteStart _ _ _ _ hab h := { h with byteStart := hab }
  setValueStart _ _ _ _ hab h := { h with valueStart := hab }
  setFrameEnd _ _ _ _ hab h := { h with frameEnd := hab }
  count _ _ f _ h := { h with decoder := { h.decoder with stats := congrArg f h.decoder.stats } }

namespace Reception

variable (c : Nat)

/-- On a delayed line a script does the same, later. -/
abbrev Delays {ε α : Type} (m m' : Reception (List Sample) ε α) : Prop :=
  Matches (·.Later c ·) (Session.Delayed c) (Session.Delayed c)
    (fun _ => Session.Delayed c) m m'

theorem move_delays {step : LineCursor → List Sample → Except Halt Bool × LineCursor × List Sample}
    (hprimed : ∀ {cursor : LineCursor} (s : List Sample), cursor.primed = true →
      (step cursor s).2.1.primed = true)
    (hstep : ∀ {cursor : LineCursor} (s : List Sample), cursor.primed = true →
      step (cursor.delay c) (s.map (Sample.delay c)) = LineCursor.delayed c (step cursor s)) :
    Delays c (move step) (move step) := by
  refine .lift fun s t h => ?_
  have hmoved := hstep s.source h.decoder.primed
  rw [← h.decoder.cursor, ← h.source] at hmoved
  have hstate : Session.Delayed c
      { s with decoder.cursor := (step s.decoder.cursor s.source).2.1
               source := (step s.decoder.cursor s.source).2.2 }
      { t with decoder.cursor := (step t.decoder.cursor t.source).2.1
               source := (step t.decoder.cursor t.source).2.2 } := by
    rw [hmoved]
    exact { h with
      decoder := { h.decoder with primed := hprimed s.source h.decoder.primed, cursor := rfl }
      source := rfl }
  exact ⟨by rw [hmoved]; rfl, fun _ _ => hstate, fun _ _ => hstate⟩

theorem waitEdge_delays (edge : Edge) (budget : Option Nat) :
    Delays c (waitEdge edge budget : Reception (List Sample) Halt Bool) (waitEdge edge budget) :=
  move_delays c (fun _ h => LineCursor.primed_waitEdge h _ _) fun s h =>
    LineCursor.waitEdge_delay c h edge budget s

/-- Everything done to receive is done on a delayed line as well, later. -/
theorem unison_delayed : Unison c (Session.Delayed c) fun _ _ _ => Delays c where
  toConcord := concord_matches (Session.Delayed.staggered c) (fun _ _ h => h) (fun _ _ _ h => h)
    (fun _ _ _ h => h) (waitEdge_delays c _ _) fun count =>
      move_delays c (fun _ h => LineCursor.primed_skip h _) fun s h =>
        LineCursor.skip_delay c h count s
  withhold := .withhold
  loop := .loop
  waitEdge := waitEdge_delays c

theorem command_delays : Delays c (command : Reception (List Sample) Halt Unit) command :=
  fun s t h => command_matches ((unison_delayed c).sync s t h) (unison_delayed c).afterSync
    (fun _ _ h => h) fun _ _ _ h => h

end Reception

/-! ## Runs -/

/-- A decoder beside its delayed line. -/
structure Decoder.OnLine.Delayed (c : Nat) (s t : OnLine (List Sample)) : Prop where
  decoder : s.decoder.Delayed c t.decoder
  source : t.source = s.source.map (Sample.delay c)

section Runs

variable (c : Nat)

theorem step_delays :
    Matches (·.Later c ·) (OnLine.Delayed c) (OnLine.Delayed c) (fun _ => OnLine.Delayed c)
      (Decoder.step : Script (OnLine (List Sample)) Annotation Halt Unit) Decoder.step := by
  intro s t h
  have hview : ∀ s t, Session.Delayed c s t →
      OnLine.Delayed c ⟨s.decoder, s.source⟩ ⟨t.decoder, t.source⟩ :=
    fun _ _ h => ⟨h.decoder, h.source⟩
  refine Decoder.step_matches (congrArg _ h.decoder.config) (fun _ _ => h) hview (fun _ => hview) ?_
  exact Reception.command_delays c _ _ ⟨h.decoder, h.source, .none, .unset c, .unset c, .unset c⟩

theorem run_delays :
    Matches (·.Later c ·) (OnLine.Delayed c) (OnLine.Delayed c) (fun _ => OnLine.Delayed c)
      (Decoder.run : Script (OnLine (List Sample)) Annotation Halt Unit) Decoder.run :=
  fun s t h => Decoder.run_matches (step_delays c s t h) (step_delays c)

/-- A run that is the same on a delayed line and has begun there after the delay hands on the same,
later. -/
theorem items_run_delay {s t : OnLine (List Sample)} (h : s.Delayed c t) :
    (Decoder.run.run t).items = (Decoder.run.run s).items.map (·.delay c) := by
  have hnow : c ≤ t.decoder.cursor.now := by
    rw [h.decoder.cursor]
    exact Nat.le_add_left c _
  have hplaced : t.decoder.cursor.Placed := by
    intro hfresh
    rw [h.decoder.cursor] at hfresh
    exact absurd hfresh (by simp [LineCursor.delay, h.decoder.primed])
  have hstarts := run_onward hplaced
  have hitems := (run_delays c s t h).items
  generalize (Decoder.run.run s).items = xs at hitems ⊢
  generalize (Decoder.run.run t).items = ys at hitems hstarts ⊢
  induction hitems with
  | nil => rfl
  | @cons a b _ _ hab _ ih =>
    rw [List.map_cons, hab.eq (Nat.le_trans hnow (hstarts b List.mem_cons_self)),
      ih fun a ha => hstarts a (List.mem_cons_of_mem _ ha)]

/-- **Decoding commutes with a delay** of the line: every annotation is later by it, and nothing
else is different. -/
theorem decode_delay (name : String) (config : Config) (line : List Sample) :
    let run := Decoder.decode { name, config } line (#[] : Array Annotation)
    let run' := Decoder.decode { name, config } (line.map (Sample.delay c)) (#[] : Array Annotation)
    run'.result = run.result ∧ run'.sink = run.sink.map (·.delay c) ∧
      run'.state.decoder.stats = run.state.decoder.stats ∧
      run'.state.decoder.samplesPerBit = run.state.decoder.samplesPerBit := by
  intro run run'
  cases hrate : config.samplerate with
  | none => simp [run, run', Decoder.decode, hrate]
  | some hz =>
    have hsome : ({ name, config } : Decoder).config.samplerate.isSome := by simp [hrate]
    obtain ⟨_, hrun⟩ := decode_array hsome line
    obtain ⟨_, hrun'⟩ := decode_array hsome (line.map (Sample.delay c))
    simp only [run, run', hrun, hrun']
    cases line with
    | nil => simp [run_empty hsome rfl]
    | cons x line =>
      have hbegun : OnLine.Delayed c ⟨{ name, config, cursor := justRead x }, line⟩
          ⟨{ name, config, cursor := justRead (x.delay c) }, line.map (Sample.delay c)⟩ :=
        ⟨⟨rfl, rfl, rfl, rfl, .unset c, rfl⟩, rfl⟩
      rw [List.map_cons, run_fresh hsome rfl, run_fresh hsome rfl, items_run_delay c hbegun]
      have hmatches := run_delays c _ _ hbegun
      have hend : OnLine.Delayed c (Decoder.run.run _).state (Decoder.run.run _).state :=
        hmatches.ended
      refine ⟨congrArg Halt.untilEnd hmatches.result.symm, by simp, hend.decoder.stats.symm, ?_⟩
      rw [Decoder.samplesPerBit, Decoder.samplesPerBit, hend.decoder.bitTime]

end Runs

end Updi

end BusDecode
