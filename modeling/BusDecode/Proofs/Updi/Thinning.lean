import BusDecode.Proofs.LineCursor.Thinning
import BusDecode.Proofs.Updi.Beginning
import BusDecode.Proofs.Updi.Congruence
import BusDecode.Proofs.Updi.Matching

/-!
# UPDI on a thinned line

On a line and on the same line without samples that repeat a level, skips and waits without a budget
go the same, so what is done to receive a command does (`Reception.concord_thinned`) but for the
waits of a sync.  One of these may be given up at its deadline on the line and end with the thinned
one.  No edge is left then, and the attempt is abandoned for a bit that is too long, so no more syncs
are found on either line (`Reception.Fruitless`): nothing more is handed on, and the decoders have
found out the same.

An abandoned attempt takes a longest credible bit time above zero.  With a bit time of zero all edges
of a sync byte come at once, and no sync is ever found.
-/

set_option autoImplicit false

namespace BusDecode

namespace Updi

open Script (Ends Matches)
open Decoder (OnLine)
open LineCursor (OnThinned Rising SameOn Outlasts Thinned justRead)

/-! ## Sessions -/

/-- What a decoder has found out.  How many syncs it has abandoned does not belong to it. -/
structure Findings where
  samplesPerBit : Option Nat
  syncs : Nat
  frameErrors : Nat
  commands : Nat
  deriving DecidableEq, Repr

def Decoder.findings (d : Decoder) : Findings :=
  ⟨d.samplesPerBit, d.stats.syncs, d.stats.frameErrors, d.stats.commands⟩

/-- A session on a line and one at the same place of the thinned line. -/
structure Session.Thinned (config : Config) (s t : Session (List Sample)) : Prop where
  decoder : s.decoder = t.decoder
  config : s.decoder.config = config
  line : OnThinned s.decoder.cursor s.source t.source
  commandStart : s.commandStart = t.commandStart
  byteStart : s.byteStart = t.byteStart
  valueStart : s.valueStart = t.valueStart
  frameEnd : s.frameEnd = t.frameEnd

section Sessions

variable {config : Config}

theorem Session.Thinned.now {s t : Session (List Sample)} (h : s.Thinned config t) :
    s.now = t.now :=
  congrArg (·.cursor.now) h.decoder

theorem Session.Thinned.peers : Peers (Session.Thinned config) where
  now _ _ h := h.now
  config _ _ h := congrArg (·.config) h.decoder
  bitTime _ _ h := congrArg (·.bitTime) h.decoder
  syncStart _ _ h := congrArg (·.syncStart) h.decoder
  commandStart _ _ h := h.commandStart
  byteStart _ _ h := h.byteStart
  valueStart _ _ h := h.valueStart
  frameEnd _ _ h := h.frameEnd
  setBitTime _ _ _ h := { h with decoder := by rw [h.decoder] }
  setSyncStart _ _ _ h := { h with decoder := by rw [h.decoder] }
  setCommandStart _ _ _ h := { h with commandStart := rfl }
  setByteStart _ _ _ h := { h with byteStart := rfl }
  setValueStart _ _ _ h := { h with valueStart := rfl }
  setFrameEnd _ _ _ h := { h with frameEnd := rfl }
  count _ _ f _ h := { h with decoder := by rw [Session.count, Session.count, h.decoder] }

/-- What is left of two sessions if they fail: they have found out the same, and if it is not a halt
they are still at the same place. -/
def Session.Parted (config : Config) {ε : Type} [Cause ε] (e : ε) (s t : Session (List Sample)) :
    Prop :=
  s.decoder.findings = t.decoder.findings ∧ ((∀ h, e ≠ Cause.halt h) → s.Thinned config t)

theorem Session.Thinned.parted {ε : Type} [Cause ε] {e : ε} {s t : Session (List Sample)}
    (h : s.Thinned config t) : s.Parted config e t :=
  ⟨congrArg Decoder.findings h.decoder, fun _ => h⟩

end Sessions

namespace Reception

/-! ## Commands -/

section Concord

variable (config : Config)

/-- On a thinned line a script does the same, up to where the sessions part. -/
abbrev GoesSame (ε α : Type) [Cause ε] (m m' : Reception (List Sample) ε α) : Prop :=
  Matches Eq (Session.Thinned config) (Session.Thinned config) (Session.Parted config) m m'

variable {config} {s t : Session (List Sample)}
  {step : LineCursor → List Sample → Except Halt Bool × LineCursor × List Sample}

theorem moved_same (h : s.Thinned config t)
    (hmoved : SameOn (step s.decoder.cursor s.source) (step s.decoder.cursor t.source)) :
    ((move step).run s).Matches Eq (Session.Thinned config) (Session.Parted config)
      ((move step).run t) := by
  rcases hs : step s.decoder.cursor s.source with ⟨answer, c, rest⟩
  rcases ht : step s.decoder.cursor t.source with ⟨answer', c', rest'⟩
  rw [hs, ht] at hmoved
  obtain ⟨rfl, rfl, hline⟩ : answer = answer' ∧ c = c' ∧ OnThinned c rest rest' :=
    ⟨hmoved.answer, hmoved.cursor, hmoved.onThinned⟩
  have hstate : Session.Thinned config { s with decoder.cursor := c, source := rest }
      { t with decoder.cursor := c, source := rest' } :=
    { h with decoder := by rw [h.decoder], line := hline }
  rw [h.decoder] at ht
  rw [run_move hs, run_move ht]
  cases answer with
  | ok b => exact .answer b hstate .nil
  | error e => exact .fail e hstate.parted .nil

theorem move_same (hstep : ∀ c s s', OnThinned c s s' → SameOn (step c s) (step c s')) :
    GoesSame config Halt Bool (move step) (move step) :=
  fun _ _ h => moved_same h (hstep _ _ _ h.line)

/-- Everything done to receive a command after its sync is done on a thinned line as well. -/
theorem concord_thinned : Concord 0 (Session.Thinned config) (GoesSame config) :=
  concord_matches Session.Thinned.peers.staggered (fun _ _ => Annotation.Later.zero_iff.1)
    (fun _ _ _ h => h.parted) (fun e _ _ h => ⟨h.1, fun hne => absurd rfl (hne e)⟩)
    (move_same fun _ _ _ h => h.wait_unlimited .falling)
    fun count => move_same fun _ _ _ h => h.skip count

end Concord

/-! ## Waits with a budget -/

section Trailing

variable {config : Config} {α β : Type} {s t : Session (List Sample)}

/-- The run on the thinned line has ended with it, while the other one answers and has no edge left
on its line. -/
structure Outlives (a : α) (run run' : Trace (Session (List Sample)) Annotation Halt α) :
    Prop where
  answer : run.result = .ok a
  primed : run.state.decoder.cursor.primed = true
  idle : ∀ x ∈ run.state.source, x.level = run.state.decoder.cursor.level
  ended : run'.result = .error .endOfStream
  findings : run.state.decoder.findings = run'.state.decoder.findings

/-- On the thinned line a script does the same, or it ends with the line where it gives up on the
other one and answers `a`. -/
def Trails (config : Config) (a : α)
    (run run' : Trace (Session (List Sample)) Annotation Halt α) : Prop :=
  run.Matches Eq (Session.Thinned config) (Session.Parted config) run' ∨ Outlives a run run'

/-- A script that only answers: it does not move, and finds out nothing. -/
structure Answered (m : Reception (List Sample) Halt α) (a : α) (s : Session (List Sample)) :
    Prop where
  answer : (m.run s).result = .ok a
  source : (m.run s).state.source = s.source
  cursor : (m.run s).state.decoder.cursor = s.decoder.cursor
  findings : (m.run s).state.decoder.findings = s.decoder.findings

theorem moved_outlives {deadline : Nat}
    {step : LineCursor → List Sample → Except Halt Bool × LineCursor × List Sample}
    (h : s.Thinned config t)
    (hmoved : Outlasts deadline (step s.decoder.cursor s.source)
      (step s.decoder.cursor t.source)) :
    Outlives false ((move step).run s) ((move step).run t) ∧
      ((move step).run s).state.now = deadline := by
  rcases hs : step s.decoder.cursor s.source with ⟨answer, c, rest⟩
  rcases ht : step s.decoder.cursor t.source with ⟨answer', c', rest'⟩
  rw [hs, ht] at hmoved
  rw [h.decoder] at ht
  rw [run_move hs, run_move ht]
  have hfindings : s.decoder.findings = t.decoder.findings := congrArg _ h.decoder
  exact ⟨⟨hmoved.answer, hmoved.primed, hmoved.idle, hmoved.ended, hfindings⟩, hmoved.now⟩

/-- Going on with an answer that two runs have in common. -/
theorem trails_bind {a : β} {m m' : Reception (List Sample) Halt α}
    {f f' : α → Reception (List Sample) Halt β}
    (h : (m.run s).Matches Eq (Session.Thinned config) (Session.Parted config) (m'.run t))
    (hf : ∀ b s t, s.Thinned config t → Trails config a ((f b).run s) ((f' b).run t)) :
    Trails config a ((m >>= f).run s) ((m' >>= f').run t) := by
  obtain ⟨hresult, hanswered, hfailed, hitems⟩ := h
  rcases hm : m.run s with ⟨e | b, s', effects⟩ <;> rcases hm' : m'.run t with ⟨_ | _, t', effects'⟩
    <;> rw [hm, hm'] at hresult hanswered hfailed hitems <;> cases hresult
  · rw [Script.run_bind_error hm, Script.run_bind_error hm']
    exact .inl (.fail e (hfailed e rfl) hitems)
  · rw [Script.run_bind_ok hm, Script.run_bind_ok hm']
    exact (hf b s' t' (hanswered b rfl)).imp (·.after hitems) fun h =>
      ⟨h.answer, h.primed, h.idle, h.ended, h.findings⟩

theorem Outlives.runs {a : α} {m m' : Reception (List Sample) Halt α}
    (h : Outlives a (m.run s) (m'.run t)) :
    m.run s = ⟨.ok a, (m.run s).state, (m.run s).effects⟩ ∧
      m'.run t = ⟨.error .endOfStream, (m'.run t).state, (m'.run t).effects⟩ := by
  rw [← h.answer, ← h.ended]
  exact ⟨rfl, rfl⟩

/-- A script that only answers changes nothing in that there is no edge left. -/
theorem Outlives.bind {a : α} {b : β} {m m' : Reception (List Sample) Halt α}
    {f f' : α → Reception (List Sample) Halt β} (h : Outlives a (m.run s) (m'.run t))
    (hlate : Answered (f a) b (m.run s).state) :
    Outlives b ((m >>= f).run s) ((m' >>= f').run t) := by
  obtain ⟨hs, ht⟩ := h.runs
  rw [Script.run_bind_ok hs, Script.run_bind_error ht]
  refine ⟨hlate.answer, (congrArg LineCursor.primed hlate.cursor).trans h.primed, ?_, rfl,
    hlate.findings.trans h.findings⟩
  change ∀ x ∈ ((f a).run (m.run s).state).state.source,
    x.level = ((f a).run (m.run s).state).state.decoder.cursor.level
  rw [hlate.source, hlate.cursor]
  exact h.idle

theorem Trails.bind {a : α} {b : β} {m m' : Reception (List Sample) Halt α}
    {f f' : α → Reception (List Sample) Halt β} (h : Trails config a (m.run s) (m'.run t))
    (hf : ∀ b', GoesSame config Halt β (f b') (f' b')) (hlate : ∀ s, Answered (f a) b s) :
    Trails config b ((m >>= f).run s) ((m' >>= f').run t) := by
  rcases h with h | h
  · exact trails_bind h fun b' s t hst => .inl (hf b' s t hst)
  · exact .inr (h.bind (hlate _))

/-- What goes on with something that reads the same goes on with one value. -/
theorem trails_read {a : α} {g : Session (List Sample) → β}
    {f f' : β → Reception (List Sample) Halt α} (hg : g s = g t)
    (hf : Trails config a ((f (g s)).run s) ((f' (g s)).run t)) :
    Trails config a ((Script.read g >>= f).run s) ((Script.read g >>= f').run t) := by
  change Trails config a ((f (g s)).run s) ((f' (g t)).run t)
  rw [← hg]
  exact hf

theorem Trails.withhold {m m' : Reception (List Sample) Halt Bool}
    (h : Trails config false (m.run s) (m'.run t)) :
    Trails config false (m.withhold.run s) (m'.withhold.run t) := by
  refine h.imp (fun h => ?_) fun h => ?_
  · refine Matches.withhold (r := fun s' t' => s' = s ∧ t' = t) ?_ s t ⟨rfl, rfl⟩
    rintro _ _ ⟨rfl, rfl⟩
    exact h
  · obtain ⟨hanswer, hprimed, hidle, hended, hfindings⟩ := h
    rw [← Script.result_withhold] at hanswer hended
    rw [← Script.state_withhold] at hprimed hidle hfindings
    rw [← Script.state_withhold m'] at hfindings
    exact ⟨hanswer, hprimed, hidle, hended, hfindings⟩

/-! ### Attempts at a sync -/

/-- Goes on if what began at `start` took no longer than the longest credible bit time. -/
def inTime (maxBitTime start : Nat) (reason : Nat → String)
    (m : Reception (List Sample) Halt Bool) : Reception (List Sample) Halt Bool := do
  let now ← Script.read Session.now
  let bitTime := now - start
  if maxBitTime < bitTime then
    tellAbandoned (reason bitTime)
    return false
  else m

theorem measureBits_succ (maxBitTime n : Nat) :
    measureBits maxBitTime (n + 1) = Script.read Session.now >>= fun start =>
      waitEdge .either (some (maxBitTime * 3)) >>= fun _ =>
        inTime maxBitTime start (fun bitTime => s!"bit {bitTime} samples")
          (putBit "data-bit" start ["x"] >>= fun _ => measureBits maxBitTime n) :=
  rfl

theorem measureSync_eq (start : Nat) : measureSync start =
    Script.read (fun s : Session (List Sample) => s.decoder.config) >>= fun config =>
      waitEdge .rising (some (config.maxBitTime * 3)) >>= fun _ =>
        inTime config.maxBitTime start (fun bitTime => s!"start bit {bitTime} samples")
          (putBit "start-bit" start ["Start bit", "Start", "S"] >>= fun _ =>
            measureBits config.maxBitTime (config.syncIntervals - 1) >>= fun credible =>
              if credible then adoptPeriod start config.syncIntervals else return false) :=
  rfl

theorem inTime_late {m : Reception (List Sample) Halt Bool} {maxBitTime start : Nat}
    {reason : Nat → String} (h : maxBitTime < s.now - start) :
    Answered (inTime maxBitTime start reason m) false s := by
  have hrun : (inTime maxBitTime start reason m).run s =
      (tellAbandoned (reason (s.now - start)) >>= fun _ => pure false).run s := by
    change (if maxBitTime < s.now - start then _ else m).run s = _
    rw [if_pos h]
  constructor <;> rw [hrun] <;> rfl

/-- The deadline of an edge is so far off that an edge which has not come by then is too late. -/
theorem timed_trails {m m' : Reception (List Sample) Halt Bool} {edge : Edge} {maxBitTime : Nat}
    {reason : Nat → String} (hpos : 0 < maxBitTime) (h : s.Thinned config t)
    (hm : ∀ s t, s.Thinned config t → Trails config false (m.run s) (m'.run t)) :
    Trails config false
      ((waitEdge edge (some (maxBitTime * 3)) >>= fun _ => inTime maxBitTime s.now reason m).run s)
      ((waitEdge edge (some (maxBitTime * 3)) >>= fun _ => inTime maxBitTime s.now reason m').run
        t) := by
  rcases h.line.wait edge (some (maxBitTime * 3)) with hsame | ⟨_, ⟨⟩, houtlasts⟩
  · refine trails_bind (moved_same h hsame) fun _ s t h => trails_read h.now ?_
    dsimp only
    split
    · exact .inl (concord_thinned.bind (concord_thinned.tells _ fun _ => rfl)
        (fun _ => concord_thinned.answer false) s t h)
    · exact hm s t h
  · obtain ⟨houtlives, hnow⟩ := moved_outlives h houtlasts
    refine .inr (houtlives.bind (inTime_late ?_))
    rw [hnow, Session.now]
    omega

theorem measureBits_trails (hpos : 0 < config.maxBitTime) (n : Nat) (h : s.Thinned config t) :
    Trails config false ((measureBits config.maxBitTime n).run s)
      ((measureBits config.maxBitTime n).run t) := by
  induction n generalizing s t with
  | zero => exact .inl (concord_thinned.answer true s t h)
  | succ n ih =>
    rw [measureBits_succ]
    refine trails_read h.now (timed_trails hpos h fun s' t' h' => ?_)
    exact trails_bind (concord_thinned.putBit _ s.now _ s' t' h') fun _ _ _ h => ih h

theorem measureSync_trails (hpos : 0 < config.maxBitTime) (h : s.Thinned config t) :
    Trails config false ((measureSync s.now).run s) ((measureSync s.now).run t) := by
  rw [measureSync_eq]
  refine trails_read (congrArg (·.config) h.decoder) ?_
  rw [h.config]
  refine timed_trails hpos h fun s' t' h' => ?_
  refine trails_bind (concord_thinned.putBit _ s.now _ s' t' h') fun _ _ _ h => ?_
  exact (measureBits_trails hpos _ h).bind
    (fun _ => Concord.ite (concord_thinned.adoptPeriod s.now _) (concord_thinned.answer false))
    fun _ => ⟨rfl, rfl, rfl, rfl⟩

theorem attemptAt_trails (hpos : 0 < config.maxBitTime) (h : s.Thinned config t) :
    Trails config false ((attemptAt s.now).run s) ((attemptAt s.now).run t) :=
  (measureSync_trails hpos h).withhold.bind
    (fun _ => Concord.ite (concord_thinned.accept s.now) (concord_thinned.answer false))
    fun _ => ⟨rfl, rfl, rfl, rfl⟩

theorem trySync_trails (hpos : 0 < config.maxBitTime) (h : s.Thinned config t) :
    Trails config false (trySync.run s) (trySync.run t) := by
  refine trails_bind (concord_thinned.fall s t h) fun _ s t h => trails_read h.now ?_
  exact attemptAt_trails hpos (Session.Thinned.peers.setFrameEnd s t s.now h)

theorem attemptSync_trails (hpos : 0 < config.maxBitTime) (h : s.Thinned config t) :
    Trails config none (attemptSync.run s) (attemptSync.run t) := by
  refine (trySync_trails hpos h).bind (fun _ => ?_) fun _ => ⟨rfl, rfl, rfl, rfl⟩
  exact Concord.ite (concord_thinned.answer _) <|
    concord_thinned.bind (concord_thinned.counts fun c more => by simp [Nat.add_right_comm])
      fun _ => concord_thinned.answer _

end Trailing

/-! ## Lines without a sync left -/

section Fruitless

variable {config : Config} {found : Findings} {s t : Session (List Sample)}

/-- No sync is found up to the end of the line, and nothing is handed on or found out. -/
def Fruitless (found : Findings) (s : Session (List Sample)) : Prop :=
  ∃ s' effects, sync.run s = ⟨.error .endOfStream, s', effects⟩ ∧
    s'.decoder.findings = found ∧ effects.filterMap Effect.item? = []

theorem Fruitless.same (h : Fruitless found s) (h' : Fruitless found t) :
    (sync.run s).Matches Eq (Session.Thinned config) (Session.Parted config) (sync.run t) := by
  obtain ⟨s', effects, hs, hfound, hitems⟩ := h
  obtain ⟨t', effects', ht, hfound', hitems'⟩ := h'
  rw [hs, ht]
  refine .fail _ ⟨hfound.trans hfound'.symm, fun hne => absurd rfl (hne _)⟩ ?_
  rw [hitems, hitems']
  exact .nil

/-- A line without an edge left. -/
theorem fruitless_idle (hprimed : s.decoder.cursor.primed = true)
    (hidle : ∀ x ∈ s.source, x.level = s.decoder.cursor.level) :
    Fruitless s.decoder.findings s :=
  ⟨_, _, run_sync_over (run_move (LineCursor.waitEdge_idle .falling hprimed hidle)), rfl, rfl⟩

/-- An attempt that does not find a sync hands on nothing. -/
theorem ends_attemptSync_quiet (s : Session (List Sample)) :
    Ends attemptSync s (fun found _ xs => found = none → xs = []) fun _ _ xs => xs = [] := by
  unfold attemptSync trySync
  refine .bind (.bind ((ends_waitEdge _ _).imp ?_ fun _ _ _ hxs => hxs))
  rintro _ s₁ _ rfl
  refine .bind (.read (.bind (.modify (.bind (.withhold (.always ?_ fun _ _ _ => rfl))))))
  rintro accepted s₂ xs
  cases accepted with
  | true =>
    refine .ite (fun _ => ?_) (by simp)
    refine .bind (.modify (.bind (.modify (.bind (.note (.answer ?_))))))
    exact .ite (fun _ => .answer (by simp)) (by simp)
  | false =>
    refine .ite (by simp) fun _ => .answer (.ite (by simp) fun _ => ?_)
    exact .bind (.modify (.answer (by simp)))

/-- A sync goes on after an attempt that was abandoned. -/
theorem Fruitless.again {s' : Session (List Sample)}
    {effects : List (Effect (Session (List Sample)) Annotation)}
    (h : attemptSync.run s = ⟨.ok none, s', effects⟩) (h' : Fruitless found s') :
    Fruitless found s := by
  have hquiet := ends_attemptSync_quiet s
  unfold Ends at hquiet
  rw [h] at hquiet
  obtain ⟨s'', effects', hrun, hfound, hitems⟩ := h'
  refine ⟨s'', effects ++ effects', ?_, hfound, ?_⟩
  · rw [run_sync_again h, hrun]
    rfl
  · rw [List.filterMap_append, hquiet rfl, hitems]
    rfl

/-- A sync is over with an attempt that fails. -/
theorem fruitless_error {s' : Session (List Sample)}
    {effects : List (Effect (Session (List Sample)) Annotation)}
    (h : attemptSync.run s = ⟨.error .endOfStream, s', effects⟩) :
    Fruitless s'.decoder.findings s := by
  have hquiet := ends_attemptSync_quiet s
  unfold Ends at hquiet
  rw [h] at hquiet
  refine ⟨s', effects, ?_, rfl, hquiet⟩
  rw [sync, Script.loop_eq]
  exact Script.run_bind_error h

/-- Neither line has a sync left if one has ended in an attempt that is abandoned on the other. -/
theorem Outlives.fruitless (h : Outlives none (attemptSync.run s) (attemptSync.run t)) :
    ∃ found, Fruitless found s ∧ Fruitless found t := by
  obtain ⟨hs, ht⟩ := h.runs
  have hidle := fruitless_idle h.primed h.idle
  rw [h.findings] at hidle
  exact ⟨_, hidle.again hs, fruitless_error ht⟩

/-! ### A bit time of zero -/

/-- A session that has begun to read its line, with a decoder that has found out so much. -/
structure Dormant (config : Config) (found : Findings) (s : Session (List Sample)) : Prop where
  primed : s.decoder.cursor.primed = true
  config : s.decoder.config = config
  findings : s.decoder.findings = found

theorem ends_waitEdge_dormant (h : Dormant config found s) (edge : Edge) (budget : Option Nat) :
    Ends (waitEdge edge budget) s
      (fun _ s' _ => Dormant config found s' ∧ ∀ n, budget = some n → s'.now ≤ s.now + n)
      fun e s' _ => e = .endOfStream ∧ s'.decoder.findings = found := by
  unfold Ends waitEdge
  rcases LineCursor.waitEdge_within edge budget h.primed (s := s.source) with
    ⟨c, rest, hwait⟩ | ⟨b, c, rest, hwait, hnow⟩
  · rw [run_move hwait]
    exact ⟨rfl, h.findings⟩
  · have hprimed := LineCursor.primed_waitEdge h.primed edge budget (s := s.source)
    rw [hwait] at hprimed
    rw [run_move hwait]
    exact ⟨⟨hprimed, h.config, h.findings⟩, hnow⟩

/-- An edge that comes at once is in time. -/
theorem ends_inTime {start : Nat} {reason : Nat → String} {m : Reception (List Sample) Halt Bool}
    {Q : Bool → Session (List Sample) → List Annotation → Prop}
    {E : Halt → Session (List Sample) → List Annotation → Prop} (hnow : s.now ≤ start)
    (h : Ends m s Q E) : Ends (inTime 0 start reason m) s Q E := by
  refine .bind (.read (.ite (fun hlate => ?_) fun _ => h))
  omega

theorem ends_measureBits_dormant {start : Nat} (n : Nat) (h : Dormant config found s)
    (hnow : s.now ≤ start) :
    Ends (measureBits 0 n) s (fun _ s' _ => Dormant config found s' ∧ s'.now ≤ start)
      fun e s' _ => e = .endOfStream ∧ s'.decoder.findings = found := by
  induction n generalizing s with
  | zero => exact .answer ⟨h, hnow⟩
  | succ n ih =>
    rw [measureBits_succ]
    refine .bind (.read (.bind ((ends_waitEdge_dormant h .either (some 0)).mono ?_)))
    rintro _ s' _ ⟨h', hwithin⟩
    have hsame : s'.now ≤ s.now := hwithin 0 rfl
    exact ends_inTime hsame (.bind (.emit (ih h' (Nat.le_trans hsame hnow))))

/-- All the edges of a sync byte come at once, so their average is no period. -/
theorem ends_measureSync_dormant (hzero : config.maxBitTime = 0)
    (hintervals : 1 ≤ config.syncIntervals) (h : Dormant config found s) :
    Ends (measureSync s.now) s (fun accepted s' _ => accepted = false ∧ Dormant config found s')
      fun e s' _ => e = .endOfStream ∧ s'.decoder.findings = found := by
  rw [measureSync_eq]
  refine .bind (.read ?_)
  rw [h.config, hzero]
  refine .bind ((ends_waitEdge_dormant h .rising (some 0)).mono ?_)
  rintro _ s' _ ⟨h', hwithin⟩
  have hsame : s'.now ≤ s.now := hwithin 0 rfl
  refine ends_inTime hsame (.bind (.emit (.bind ((ends_measureBits_dormant _ h' hsame).mono ?_))))
  rintro credible s'' _ ⟨h'', hnow⟩
  refine .ite (fun _ => ?_) fun _ => .answer ⟨rfl, h''⟩
  refine .bind (.read (.ite (fun hnone => ?_) fun _ => .ite (fun _ => .answer ⟨rfl, h''⟩) ?_))
  · omega
  · intro hperiod
    refine absurd ?_ hperiod
    rw [Nat.sub_eq_zero_of_le hnow, Nat.zero_add]
    exact Nat.div_eq_of_lt (by omega)

theorem ends_attemptSync_dormant (hzero : config.maxBitTime = 0)
    (hintervals : 1 ≤ config.syncIntervals) (h : Dormant config found s) :
    Ends attemptSync s (fun sought s' _ => sought = none ∧ Dormant config found s')
      fun e s' _ => e = .endOfStream ∧ s'.decoder.findings = found := by
  unfold attemptSync trySync
  refine .bind (.bind ((ends_waitEdge_dormant h .falling none).mono ?_))
  rintro _ s₁ _ ⟨h₁, _⟩
  refine .bind (.read (.bind (.modify (.bind (.withhold ?_)))))
  refine (ends_measureSync_dormant hzero hintervals (s := { s₁ with frameEnd := s₁.now })
    ⟨h₁.primed, h₁.config, h₁.findings⟩).mono ?_
  rintro _ s₂ _ ⟨rfl, h₂⟩
  refine .ite (by simp) fun _ => .answer (.ite (by simp) fun _ => .bind (.modify (.answer ?_)))
  exact ⟨rfl, h₂.primed, h₂.config, h₂.findings⟩

theorem fruitless_dormant (hzero : config.maxBitTime = 0) (hintervals : 1 ≤ config.syncIntervals)
    (h : Dormant config found s) : Fruitless found s := by
  have hends : Ends sync s (fun _ _ _ => False)
      fun e s' xs => (e = .endOfStream ∧ s'.decoder.findings = found) ∧ xs = [] := by
    refine .loop_quiet h fun s h => ?_
    refine ((ends_attemptSync_dormant hzero hintervals h).and (ends_attemptSync_quiet s)).mono ?_
    rintro _ s' xs ⟨⟨rfl, h'⟩, hquiet⟩
    exact ⟨h', hquiet rfl⟩
  unfold Ends at hends
  split at hends
  · exact hends.elim
  · obtain ⟨⟨rfl, hfound⟩, hitems⟩ := hends
    exact ⟨_, _, ‹_›, hfound, hitems⟩

end Fruitless

/-! ## Syncs and commands -/

section Commands

variable {config : Config}

/-- **A sync** is found on a thinned line if it is on the line, or the sessions part. -/
theorem sync_same (hintervals : 1 ≤ config.syncIntervals) :
    GoesSame config Halt Unit sync sync := by
  intro s t h
  rcases Nat.eq_zero_or_pos config.maxBitTime with hzero | hpos
  · have hs : Dormant config s.decoder.findings s := ⟨h.line.primed, h.config, rfl⟩
    have ht : Dormant config s.decoder.findings t := by
      rw [h.decoder]
      exact ⟨h.decoder ▸ h.line.primed, h.decoder ▸ h.config, rfl⟩
    exact (fruitless_dormant hzero hintervals hs).same (fruitless_dormant hzero hintervals ht)
  induction hn : s.unread using Nat.strongRecOn generalizing s t with
  | ind n ih =>
    subst hn
    -- attempts go the same one by one, up to one in which the thinned line ends
    rcases attemptSync_trails hpos h with hsame | hlate
    · rw [sync, Script.loop_eq attemptSync]
      refine hsame.bind fun found hfound h' => ?_
      cases found with
      | some _ => exact Matches.answer () _ _ h'
      | none => exact ih _ (descends_attemptSync s hfound) _ _ h' rfl
    · obtain ⟨_, hs, ht⟩ := hlate.fruitless
      exact hs.same ht

theorem command_same (hintervals : 1 ≤ config.syncIntervals) :
    GoesSame config Halt Unit command command := by
  have hsync := sync_same hintervals
  refine fun s t h => command_matches (hsync s t h) (concord_thinned.afterSync hsync) ?_ ?_
  · exact fun _ _ h => h.2 (by simp [Cause.halt])
  · exact fun e _ _ h => ⟨h.1, fun hne => absurd rfl (hne e)⟩

end Commands

end Reception

/-! ## Runs -/

section Runs

variable {config : Config}

/-- A decoder on a line and one at the same place of the thinned line. -/
structure Decoder.OnLine.Thinned (config : Config) (s t : OnLine (List Sample)) : Prop where
  decoder : s.decoder = t.decoder
  config : s.decoder.config = config
  line : OnThinned s.decoder.cursor s.source t.source

/-- Decoders that have found out the same. -/
def Decoder.OnLine.Agree (s t : OnLine (List Sample)) : Prop :=
  s.decoder.findings = t.decoder.findings

theorem step_same (hintervals : 1 ≤ config.syncIntervals) :
    Matches Eq (OnLine.Thinned config) (OnLine.Thinned config) (fun _ => OnLine.Agree)
      (Decoder.step : Script (OnLine (List Sample)) Annotation Halt Unit) Decoder.step := by
  intro s t h
  have hagree : OnLine.Agree s t := congrArg Decoder.findings h.decoder
  have hview : ∀ s t, Session.Thinned config s t →
      OnLine.Thinned config ⟨s.decoder, s.source⟩ ⟨t.decoder, t.source⟩ :=
    fun _ _ h => ⟨h.decoder, h.config, h.line⟩
  have hparted : ∀ (e : Halt) s t, Session.Parted config e s t →
      OnLine.Agree ⟨s.decoder, s.source⟩ ⟨t.decoder, t.source⟩ :=
    fun _ _ _ h => h.1
  refine Decoder.step_matches (congrArg (·.config.samplerate) h.decoder) (fun _ _ => hagree)
    hview hparted ?_
  exact Reception.command_same hintervals _ _ ⟨h.decoder, h.config, h.line, rfl, rfl, rfl, rfl⟩

theorem run_same (hintervals : 1 ≤ config.syncIntervals) :
    Matches Eq (OnLine.Thinned config) (OnLine.Thinned config) (fun _ => OnLine.Agree)
      (Decoder.run : Script (OnLine (List Sample)) Annotation Halt Unit) Decoder.run :=
  fun s t h => Decoder.run_matches (step_same hintervals s t h) (step_same hintervals)

/-- **Decoding sees levels and not samples**: a line without samples that repeat a level decodes to
the same annotations with the same result, and the decoder finds out the same. -/
theorem decode_thinned (name : String) {config : Config} (hrate : config.samplerate.isSome)
    (hintervals : 1 ≤ config.syncIntervals) {line line' : List Sample} (hrising : Rising line)
    (hthin : Thinned none line line') :
    let run := Decoder.decode { name, config } line (#[] : Array Annotation)
    let run' := Decoder.decode { name, config } line' (#[] : Array Annotation)
    run'.result = run.result ∧ run'.sink = run.sink ∧
      run'.state.decoder.findings = run.state.decoder.findings := by
  intro run run'
  have hsome : ({ name, config } : Decoder).config.samplerate.isSome := hrate
  cases line with
  | nil =>
    cases hthin
    exact ⟨rfl, rfl, rfl⟩
  | cons x s =>
    obtain ⟨s', rfl, hrest⟩ := hthin.of_cons
    obtain ⟨_, hrun⟩ := decode_array hsome (x :: s)
    obtain ⟨_, hrun'⟩ := decode_array hsome (x :: s')
    have hbegun : OnLine.Thinned config ⟨{ name, config, cursor := justRead x }, s⟩
        ⟨{ name, config, cursor := justRead x }, s'⟩ :=
      ⟨rfl, rfl, .begin hrising hrest⟩
    have hmatches : (Decoder.run.run _).Matches Eq OnLine.Agree (fun _ => OnLine.Agree)
        (Decoder.run.run _) :=
      (run_same hintervals _ _ hbegun).mono (fun _ _ h => congrArg Decoder.findings h.decoder)
        fun _ _ _ h => h
    simp only [run, run', hrun, hrun', run_fresh hsome rfl, hmatches.items_eq]
    exact ⟨congrArg Halt.untilEnd hmatches.result.symm, trivial, hmatches.ended.symm⟩

/-- A register that is read, and then a fall after which the line stays low.  The last sample is
beyond the deadline of the wait for a rise; where it is missing the line ends before an attempt is
abandoned. -/
theorem decode_thinned_ldcs :
    let d : Decoder := { config := { samplerate := some 1000000, maxBitTime := 10 } }
    let line : List Sample := [⟨0, true⟩, ⟨5, true⟩, ⟨10, false⟩, ⟨12, true⟩, ⟨14, false⟩,
      ⟨15, false⟩, ⟨16, true⟩, ⟨18, false⟩, ⟨20, true⟩, ⟨22, false⟩, ⟨24, true⟩, ⟨26, false⟩,
      ⟨28, true⟩, ⟨32, false⟩, ⟨40, false⟩, ⟨48, true⟩, ⟨54, false⟩, ⟨72, true⟩, ⟨100, false⟩,
      ⟨140, false⟩]
    let line' : List Sample := [⟨0, true⟩, ⟨10, false⟩, ⟨12, true⟩, ⟨14, false⟩, ⟨16, true⟩,
      ⟨18, false⟩, ⟨20, true⟩, ⟨22, false⟩, ⟨24, true⟩, ⟨26, false⟩, ⟨28, true⟩, ⟨32, false⟩,
      ⟨40, false⟩, ⟨48, true⟩, ⟨54, false⟩, ⟨72, true⟩, ⟨100, false⟩]
    let run := d.decode line (#[] : Array Annotation)
    let run' := d.decode line' (#[] : Array Annotation)
    d.config.samplerate.isSome ∧ 1 ≤ d.config.syncIntervals ∧ Rising line ∧
      Thinned none line line' ∧
      (run'.result = run.result ∧ run'.sink = run.sink ∧
        run'.state.decoder.findings = run.state.decoder.findings) ∧
      run.state.decoder.findings = ⟨some 2, 1, 0, 1⟩ ∧
      run.state.decoder.stats.syncAbandoned = 1 ∧ run'.state.decoder.stats.syncAbandoned = 0 := by
  intro d line line' run run'
  have hintervals : 1 ≤ d.config.syncIntervals := by decide
  have hrising : Rising line := by decide
  have hthin : Thinned none line line' := by
    repeat first | exact .nil | refine .keep ?_ | refine .drop rfl ?_
  have hrun : run.state.decoder.findings = ⟨some 2, 1, 0, 1⟩ ∧
      run.state.decoder.stats.syncAbandoned = 1 ∧ run'.state.decoder.stats.syncAbandoned = 0 := by
    decide +kernel
  exact ⟨rfl, hintervals, hrising, hthin, decode_thinned "avr_updi" rfl hintervals hrising hthin,
    hrun⟩

end Runs

end Updi

end BusDecode
