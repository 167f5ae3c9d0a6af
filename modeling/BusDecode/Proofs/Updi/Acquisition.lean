import BusDecode.Proofs.Alternating
import BusDecode.Proofs.Updi.Reception

/-!
# What a sync attempt accepts

On an alternating line an attempt is decided by the times of the edges from its first fall on.  It
measures one interval between edges after the other, and the first that is too long ends it
(`measureBits_overlong`), as does the end of the line (`measureBits_short`).  If all of them are
credible, their average is the period, and the attempt succeeds just in case the line is high where
the stop bit is sampled at that period.  `trySync_outcome` has all of this for every reachable
position.
-/

set_option autoImplicit false

namespace BusDecode

namespace Updi

open LineCursor (Rising Alternating Reachable HasRead OnWave justRead edgesLeft levelAt)
open Script (Answers Ends)

/-! ## Intervals between edges -/

/-- The time of an edge, counted from the first one. -/
def edgeTime (es : List Sample) (i : Nat) : Nat :=
  (es.map Sample.time).getD i 0

/-- Of the first `n` intervals, those that have an edge at their end are no longer than `m`. -/
def Within (m n : Nat) (es : List Sample) : Prop :=
  ∀ i < n, i + 1 < es.length → edgeTime es (i + 1) - edgeTime es i ≤ m

section Intervals

variable {m n : Nat} {x y : Sample} {rest : List Sample}

@[simp] theorem edgeTime_zero : edgeTime (x :: rest) 0 = x.time := rfl

@[simp] theorem edgeTime_succ (i : Nat) : edgeTime (x :: rest) (i + 1) = edgeTime rest i := rfl

theorem within_succ : Within m (n + 1) (x :: y :: rest) ↔
    y.time - x.time ≤ m ∧ Within m n (y :: rest) := by
  constructor
  · intro h
    refine ⟨h 0 (Nat.succ_pos n) (by simp), fun i hi hlength => ?_⟩
    exact h (i + 1) (by omega) (by simpa using hlength)
  · rintro ⟨hfirst, hrest⟩ i hi hlength
    cases i with
    | zero => exact hfirst
    | succ i => exact hrest i (by omega) (by simpa using hlength)

theorem edgeTime_add_le (h : Rising (x :: rest)) (hn : n ≤ rest.length) :
    x.time + n ≤ edgeTime (x :: rest) n := by
  induction n generalizing x rest with
  | zero => exact Nat.le_refl _
  | succ n ih =>
    cases rest with
    | nil => simp at hn
    | cons y rest =>
      obtain ⟨hlater, hrest⟩ := List.pairwise_cons.1 h
      have := hlater y List.mem_cons_self
      have := ih hrest (by simpa using hn)
      rw [edgeTime_succ]
      omega

end Intervals

/-! ## Sessions on an alternating line -/

/-- The session with its cursor elsewhere. -/
def Session.on {σ : Type} (s : Session σ) (c : LineCursor) (source : σ) : Session σ :=
  { s with decoder.cursor := c, source }

/-- The session has just read the edge `x`, and no frame reaches beyond it. -/
structure AtEdge (line : List Sample) (x : Sample) (s : Session (List Sample)) : Prop where
  cursor : s.decoder.cursor = justRead x
  hasRead : HasRead line x (justRead x) s.source
  frame : s.frameEnd ≤ x.time

/-- Where a wait of up to `3 * m` samples for the edge `y` after `x` leaves a session: on that edge,
or before it if it is later. -/
def waited (m : Nat) (s : Session (List Sample)) (x y : Sample) (rest : List Sample) :
    Session (List Sample) :=
  if x.time + m * 3 < y.time then s.on { justRead x with now := x.time + m * 3 } (y :: rest)
  else s.on (justRead y) rest

section Sessions

variable {line rest : List Sample} {x y : Sample} {s : Session (List Sample)} {m n : Nat}

theorem AtEdge.now (h : AtEdge line x s) : s.now = x.time := by
  rw [Session.now, h.cursor]
  rfl

theorem AtEdge.stop (h : AtEdge line x s) : s.stop = x.time := by
  rw [Session.stop, h.now]
  exact Nat.max_eq_left h.frame

theorem AtEdge.next (hrising : Rising line) (h : AtEdge line x s) (hs : s.source = y :: rest) :
    AtEdge line y (s.on (justRead y) rest) := by
  have hread := h.hasRead
  rw [hs] at hread
  refine ⟨rfl, hread.next hrising, Nat.le_trans h.frame ?_⟩
  exact hread.ahead y List.mem_cons_self

theorem waited_credible (hgap : y.time - x.time ≤ m) :
    waited m s x y rest = s.on (justRead y) rest :=
  if_neg (by omega)

theorem lt_now_waited (hm : 1 ≤ m) (hgap : m < y.time - x.time) :
    m < (waited m s x y rest).now - x.time := by
  unfold waited
  split
  · change m < x.time + m * 3 - x.time
    omega
  · exact hgap

theorem waited_eq_on : ∃ c source, waited m s x y rest = s.on c source := by
  unfold waited
  split
  · exact ⟨_, _, rfl⟩
  · exact ⟨_, _, rfl⟩

namespace Reception

/-! ## Measuring -/

/-- A wait for the next edge, whatever is then said about it. -/
theorem run_waitEdge_next (m : Nat) {edge : Edge} (halternating : Alternating line)
    (h : AtEdge line x s)
    (hs : s.source = y :: rest) (hmatch : edge.matches y.level = true) :
    ∃ found, (waitEdge edge (some (m * 3))).run s = ⟨.ok found, waited m s x y rest, []⟩ := by
  have hread := h.hasRead
  rw [hs] at hread
  have hwait : LineCursor.waitEdge edge (some (m * 3)) s.decoder.cursor s.source =
      if x.time + m * 3 < y.time then
        (.ok false, { justRead x with now := x.time + m * 3 }, y :: rest)
      else (.ok true, justRead y, rest) := by
    rw [h.cursor, hs]
    exact hread.waitEdge_next halternating hmatch
  unfold waited
  split
  · rw [if_pos ‹_›] at hwait
    exact ⟨false, run_move hwait⟩
  · rw [if_neg ‹_›] at hwait
    exact ⟨true, run_move hwait⟩

theorem run_waitEdge_short (h : AtEdge line x s) (hs : s.source = []) (edge : Edge)
    (budget : Option Nat) :
    (waitEdge edge budget).run s = ⟨.error .endOfStream, s, []⟩ := by
  have hread := h.hasRead
  rw [hs] at hread
  have hwait := hread.waitEdge_nil edge budget
  rw [← hs, ← h.cursor] at hwait
  exact run_move hwait

/-- The annotations of data bits between edges. -/
def measuredBits (e : Nat → Nat) (n : Nat) : List Annotation :=
  (List.range n).map fun i => ⟨.bit, "data-bit", e i, e (i + 1), ["x"]⟩

theorem measuredBits_succ (x : Sample) (es : List Sample) (n : Nat) :
    measuredBits (edgeTime (x :: es)) (n + 1) =
      ⟨.bit, "data-bit", x.time, edgeTime es 0, ["x"]⟩ :: measuredBits (edgeTime es) n := by
  rw [measuredBits, List.range_succ_eq_map, List.map_cons, List.map_map]
  rfl

/-- A credible interval is annotated, and the measurement goes on from its end. -/
theorem ends_measureBits_credible {Q : Bool → Session (List Sample) → List Annotation → Prop}
    {E : Halt → Session (List Sample) → List Annotation → Prop} (hrising : Rising line)
    (halternating : Alternating line) (h : AtEdge line x s) (hs : s.source = y :: rest)
    (hgap : y.time - x.time ≤ m)
    (hrest : Ends (measureBits m n) (s.on (justRead y) rest)
      (fun credible s' xs => Q credible s' (⟨.bit, "data-bit", x.time, y.time, ["x"]⟩ :: xs))
      fun e s' xs => E e s' (⟨.bit, "data-bit", x.time, y.time, ["x"]⟩ :: xs)) :
    Ends (measureBits m (n + 1)) s Q E := by
  have hmatch : Edge.either.matches y.level = true := rfl
  obtain ⟨found, hwait⟩ := run_waitEdge_next m halternating h hs hmatch
  rw [waited_credible hgap] at hwait
  have hnext := h.next hrising hs
  unfold measureBits
  refine .bind (.read (.bind_run hwait (.bind (.read ?_))))
  rw [h.now, hnext.now]
  refine .ite (fun hlong => absurd hlong (Nat.not_lt.2 hgap)) fun _ => .bind (.emit ?_)
  rw [hnext.stop]
  exact hrest

/-- An interval that is too long ends the measurement. -/
theorem answers_measureBits_long (halternating : Alternating line) (h : AtEdge line x s)
    (hs : s.source = y :: rest) (hm : 1 ≤ m) (hgap : m < y.time - x.time) :
    Answers (measureBits m (n + 1)) s fun credible s' _ =>
      credible = false ∧ s' = waited m s x y rest := by
  have hmatch : Edge.either.matches y.level = true := rfl
  obtain ⟨found, hwait⟩ := run_waitEdge_next m halternating h hs hmatch
  have hlong : m < (waited m s x y rest).now - x.time := lt_now_waited hm hgap
  unfold measureBits
  refine .bind (.read (.bind_run hwait (.bind (.read ?_))))
  rw [h.now]
  exact .ite (fun _ => .bind (.note (.answer ⟨rfl, rfl⟩))) fun hshort => absurd hlong hshort

/-- Credible intervals are measured from edge to edge. -/
theorem measureBits_credible (hrising : Rising line) (halternating : Alternating line)
    (h : AtEdge line x s) (hs : s.source = rest) (hlength : n ≤ rest.length)
    (hwithin : Within m n (x :: rest)) :
    Answers (measureBits m n) s fun credible s' xs => credible = true ∧
      (∃ y, AtEdge line y s' ∧ y.time = edgeTime (x :: rest) n) ∧
      (∃ c source, s' = s.on c source) ∧ xs = measuredBits (edgeTime (x :: rest)) n := by
  induction n generalizing x rest s with
  | zero => exact .answer ⟨rfl, ⟨x, h, rfl⟩, ⟨_, _, rfl⟩, rfl⟩
  | succ n ih =>
    cases rest with
    | nil => simp at hlength
    | cons y rest =>
      obtain ⟨hgap, hwithin⟩ := within_succ.1 hwithin
      refine ends_measureBits_credible hrising halternating h hs hgap ?_
      refine (ih (h.next hrising hs) rfl (Nat.le_of_succ_le_succ hlength) hwithin).mono ?_
      rintro credible s' xs ⟨rfl, hedge, ⟨c, source, rfl⟩, rfl⟩
      exact ⟨rfl, hedge, ⟨c, source, rfl⟩, (measuredBits_succ x (y :: rest) n).symm⟩

/-- The measurement is abandoned at the first interval that is too long. -/
theorem measureBits_overlong {k : Nat} (hrising : Rising line) (halternating : Alternating line)
    (h : AtEdge line x s) (hs : s.source = rest) (hm : 1 ≤ m) (hk : k < n)
    (hlength : k < rest.length) (hwithin : Within m k (x :: rest))
    (hlong : m < edgeTime (x :: rest) (k + 1) - edgeTime (x :: rest) k) :
    Answers (measureBits m n) s fun credible s' _ =>
      credible = false ∧ ∃ c source, s' = s.on c source := by
  induction k generalizing n x rest s with
  | zero =>
    obtain ⟨n, rfl⟩ := Nat.exists_eq_add_one.2 hk
    obtain ⟨y, rest, rfl⟩ := List.exists_cons_of_length_pos hlength
    refine (answers_measureBits_long halternating h hs hm hlong).mono ?_
    rintro credible s' _ ⟨rfl, rfl⟩
    exact ⟨rfl, waited_eq_on⟩
  | succ k ih =>
    obtain ⟨n, rfl⟩ := Nat.exists_eq_add_one.2 (Nat.zero_lt_of_lt hk)
    obtain ⟨y, rest, rfl⟩ := List.exists_cons_of_length_pos (Nat.zero_lt_of_lt hlength)
    obtain ⟨hgap, hwithin⟩ := within_succ.1 hwithin
    refine ends_measureBits_credible hrising halternating h hs hgap ?_
    refine (ih (h.next hrising hs) rfl (Nat.lt_of_succ_lt_succ hk)
      (Nat.lt_of_succ_lt_succ hlength) hwithin hlong).mono ?_
    rintro credible s' _ ⟨rfl, c, source, rfl⟩
    exact ⟨rfl, c, source, rfl⟩

/-- The measurement fails with the line if that ends before there is an interval too long. -/
theorem measureBits_short (hrising : Rising line) (halternating : Alternating line)
    (h : AtEdge line x s) (hs : s.source = rest) (hlength : rest.length < n)
    (hwithin : Within m n (x :: rest)) :
    Ends (measureBits m n) s (fun _ _ _ => False) fun e s' _ =>
      e = .endOfStream ∧ ∃ c source, s' = s.on c source := by
  induction n generalizing x rest s with
  | zero => simp at hlength
  | succ n ih =>
    cases rest with
    | nil =>
      unfold measureBits
      refine .bind (.read (.bind_error (run_waitEdge_short h hs _ _) ⟨rfl, _, _, rfl⟩))
    | cons y rest =>
      obtain ⟨hgap, hwithin⟩ := within_succ.1 hwithin
      refine ends_measureBits_credible hrising halternating h hs hgap ?_
      refine (ih (h.next hrising hs) rfl (Nat.lt_of_succ_lt_succ hlength) hwithin).imp ?_ ?_
      · exact fun _ _ _ hfalse => hfalse
      · rintro e s' _ ⟨rfl, c, source, rfl⟩
        exact ⟨rfl, c, source, rfl⟩

/-! ## The stop bit -/

section Finish

variable {wave : Nat → Bool}

/-- The session has moved along the wave, and nothing but its cursor has changed. -/
structure Moved (wave : Nat → Bool) (now : Nat) (s s' : Session (List Sample)) : Prop where
  now : s'.now = now
  onWave : OnWave wave s'.decoder.cursor s'.source
  rest : ∃ c source, s' = s.on c source

theorem Moved.trans {now now' : Nat} {s' s'' : Session (List Sample)} (h : Moved wave now s s')
    (h' : Moved wave now' s' s'') : Moved wave now' s s'' := by
  obtain ⟨c, source, rfl⟩ := h.rest
  obtain ⟨c', source', rfl⟩ := h'.rest
  exact ⟨h'.now, h'.onWave, c', source', rfl⟩

theorem skip_moved (h : OnWave wave s.decoder.cursor s.source) (count : Nat) :
    Answers (skip count) s fun level s' xs =>
      level = wave (s.now + count) ∧ xs = [] ∧ Moved wave (s.now + count) s s' := by
  obtain ⟨c, source, hskip, hnow, hwave⟩ := LineCursor.skip_onWave h count
  exact answers_move hskip ⟨rfl, rfl, hnow, hwave, c, source, rfl⟩

theorem dataBit_moved (label : String) (h : OnWave wave s.decoder.cursor s.source)
    (hframe : s.frameEnd ≤ s.now) :
    Answers (dataBit (some label)) s fun _ s' xs =>
      xs = [⟨.bit, "data-bit", s.now, s.now + s.decoder.bitTime, [label]⟩] ∧
      Moved wave (s.now + s.decoder.bitTime) s s' := by
  unfold dataBit sampleBit
  refine .bind (.read (.bind (.bind (.read (.bind ((skip_moved h _).mono ?_))))))
  rintro level s₁ _ ⟨rfl, rfl, h₁⟩
  refine .bind ((skip_moved h₁.onWave _).mono ?_)
  rintro _ s₂ _ ⟨_, rfl, h₂⟩
  have hend : s₁.now + (s.decoder.bitTime + 1) / 2 = s.now + s.decoder.bitTime := by
    rw [h₁.now]
    omega
  rw [hend] at h₂
  have hmoved := h₁.trans h₂
  have hstop : s₂.stop = s.now + s.decoder.bitTime := by
    obtain ⟨c, source, rfl⟩ := hmoved.rest
    rw [Session.stop, hmoved.now]
    exact Nat.max_eq_left (Nat.le_trans hframe (Nat.le_add_right _ _))
  refine .answer (.bind (.emit (.answer ⟨?_, hmoved⟩)))
  rw [hstop]
  rfl

theorem stopBits_level (h : OnWave wave s.decoder.cursor s.source) :
    Answers stopBits s fun stopped s' xs =>
      stopped = wave (s.now + s.decoder.bitTime / 2) ∧
      (stopped = true →
        xs = [⟨.bit, "stop-bit", s.now, s'.stop, ["Stop bit", "Stop", "T"]⟩]) ∧
      s'.stop = s.now + 2 * s.decoder.bitTime ∧
      ∃ c, s'.decoder = { s.decoder with cursor := c } := by
  unfold stopBits
  refine .bind (.read (.bind (.read (.bind ((skip_moved h _).mono ?_)))))
  rintro level s₁ _ ⟨hlevel, rfl, h₁⟩
  obtain ⟨c, source, rfl⟩ := h₁.rest
  have hstop : max (s.on c source).now (s.now + 2 * s.decoder.bitTime) =
      s.now + 2 * s.decoder.bitTime := by
    rw [h₁.now]
    omega
  refine .bind (.modify (.bind (.ite (fun _ => .emit ?_) fun _ => .emit ?_)))
  · exact .answer ⟨hlevel, fun _ => rfl, hstop, c, rfl⟩
  · exact .answer ⟨hlevel, fun htrue => absurd htrue ‹_›, hstop, c, rfl⟩

/-- The annotations that end a sync: its last data bit, its stop bits, its byte and its field. -/
def syncEnd (start last period : Nat) : List Annotation :=
  [⟨.bit, "data-bit", last, last + period, ["x"]⟩,
    ⟨.bit, "stop-bit", last + period, last + 3 * period, ["Stop bit", "Stop", "T"]⟩,
    ⟨.byte, "byte-value", start, last + 3 * period, [Numeral.hexByte 0x55]⟩,
    ⟨.field, "sync", start, last + 3 * period, ["SYNC"]⟩]

/-- After the last edge, the level at the middle of the stop bit decides. -/
theorem finishSync_level (start : Nat) (h : OnWave wave s.decoder.cursor s.source)
    (hframe : s.frameEnd ≤ s.now) :
    Answers (finishSync start) s fun accepted s' xs =>
      accepted = wave (s.now + s.decoder.bitTime + s.decoder.bitTime / 2) ∧
      (accepted = true → xs = syncEnd start s.now s.decoder.bitTime) ∧
      ∃ c, s'.decoder = { s.decoder with cursor := c } := by
  unfold finishSync
  refine .bind ((dataBit_moved "x" h hframe).mono ?_)
  rintro _ s₁ _ ⟨rfl, h₁⟩
  refine .bind ((stopBits_level h₁.onWave).mono ?_)
  obtain ⟨c₁, source₁, rfl⟩ := h₁.rest
  rintro stopped s₂ xs ⟨hlevel, hxs, hstop, c₂, hd₂⟩
  rw [h₁.now] at hlevel hxs hstop
  have hend : s₂.stop = s.now + 3 * s.decoder.bitTime := by
    change s₂.stop = s.now + s.decoder.bitTime + 2 * s.decoder.bitTime at hstop
    omega
  refine .ite (fun htrue => .bind (.emit (.bind (.emit (.answer ⟨?_, fun _ => ?_, c₂, hd₂⟩))))) ?_
  · rw [← htrue]
    exact hlevel
  · rw [hxs htrue, hend]
    rfl
  · intro hfalse
    refine .bind (.note (.answer ⟨?_, by simp, c₂, hd₂⟩))
    rw [Bool.not_eq_true] at hfalse
    rw [← hfalse]
    exact hlevel

end Finish

/-! ## An attempt -/

section Attempt

variable {config : Config}

/-- The average of `n` intervals, rounded. -/
def average (es : List Sample) (n : Nat) : Nat :=
  (edgeTime es n - edgeTime es 0 + n / 2) / n

theorem average_pos (hrising : Rising (x :: rest)) (hn : 1 ≤ n) (hlength : n ≤ rest.length) :
    0 < average (x :: rest) n := by
  have hlast := edgeTime_add_le hrising hlength
  unfold average
  rw [edgeTime_zero]
  apply Nat.div_pos _ hn
  omega

theorem adoptPeriod_level (hrising : Rising line) (h : AtEdge line y s) (hn : 1 ≤ n)
    {start period : Nat} (hperiod : (y.time - start + n / 2) / n = period) (hpos : 0 < period) :
    Answers (adoptPeriod start n) s fun accepted s' xs =>
      accepted = levelAt false line (y.time + period + period / 2) ∧
      (accepted = true → xs = syncEnd start y.time period) ∧
      ∃ c, s'.decoder = { s.decoder with cursor := c, bitTime := period } := by
  unfold adoptPeriod
  refine .bind (.read ?_)
  rw [h.now, hperiod]
  refine .ite (fun hzero => absurd hzero (Nat.ne_of_gt hn)) fun _ => ?_
  refine .ite (fun hzero => absurd hzero (Nat.ne_of_gt hpos)) fun _ => .bind (.modify ?_)
  have hwave := h.hasRead.onWave hrising
  rw [← h.cursor] at hwave
  have hframe : s.frameEnd ≤ s.now := by
    rw [h.now]
    exact h.frame
  refine (finishSync_level (s := { s with decoder.bitTime := period }) start hwave hframe).mono ?_
  have hnow : Session.now { s with decoder.bitTime := period } = y.time := h.now
  rw [hnow]
  exact fun accepted s' xs hend => hend

/-- What a sync byte of `n` intervals is annotated with, given the times of its edges. -/
def syncByte (e : Nat → Nat) (n period : Nat) : List Annotation :=
  ⟨.bit, "start-bit", e 0, e 1, ["Start bit", "Start", "S"]⟩ ::
    (measuredBits (fun i => e (i + 1)) (n - 1) ++ syncEnd (e 0) (e n) period)

/-- A credible start bit is annotated, and the measurement goes on from its end. -/
theorem ends_measureSync_credible {Q : Bool → Session (List Sample) → List Annotation → Prop}
    {E : Halt → Session (List Sample) → List Annotation → Prop} (hrising : Rising line)
    (halternating : Alternating line) (h : AtEdge line x s) (hlow : x.level = false)
    (hs : s.source = y :: rest) (hgap : y.time - x.time ≤ s.decoder.config.maxBitTime)
    (hrest : Ends (do
        let credible ← measureBits s.decoder.config.maxBitTime (s.decoder.config.syncIntervals - 1)
        if credible then adoptPeriod x.time s.decoder.config.syncIntervals else return false)
      (s.on (justRead y) rest)
      (fun accepted s' xs => Q accepted s'
        (⟨.bit, "start-bit", x.time, y.time, ["Start bit", "Start", "S"]⟩ :: xs))
      fun e s' xs => E e s'
        (⟨.bit, "start-bit", x.time, y.time, ["Start bit", "Start", "S"]⟩ :: xs)) :
    Ends (measureSync x.time) s Q E := by
  have hread := h.hasRead
  rw [hs] at hread
  have hmatch : Edge.rising.matches y.level = true := by
    rw [hread.change halternating, hlow]
    rfl
  obtain ⟨found, hwait⟩ :=
    run_waitEdge_next s.decoder.config.maxBitTime halternating h hs hmatch
  rw [waited_credible hgap] at hwait
  have hnext := h.next hrising hs
  unfold measureSync
  refine .bind (.read (.bind_run hwait (.bind (.read ?_))))
  rw [hnext.now]
  refine .ite (fun hlong => absurd hlong (Nat.not_lt.2 hgap)) fun _ => .bind (.emit ?_)
  rw [hnext.stop]
  exact hrest

/-- A start bit that is too long ends the attempt. -/
theorem answers_measureSync_long (halternating : Alternating line) (h : AtEdge line x s)
    (hlow : x.level = false) (hs : s.source = y :: rest) (hm : 1 ≤ s.decoder.config.maxBitTime)
    (hgap : s.decoder.config.maxBitTime < y.time - x.time) :
    Answers (measureSync x.time) s fun accepted s' _ =>
      accepted = false ∧ s' = waited s.decoder.config.maxBitTime s x y rest := by
  have hread := h.hasRead
  rw [hs] at hread
  have hmatch : Edge.rising.matches y.level = true := by
    rw [hread.change halternating, hlow]
    rfl
  obtain ⟨found, hwait⟩ :=
    run_waitEdge_next s.decoder.config.maxBitTime halternating h hs hmatch
  have hlong : s.decoder.config.maxBitTime <
      (waited s.decoder.config.maxBitTime s x y rest).now - x.time := lt_now_waited hm hgap
  unfold measureSync
  refine .bind (.read (.bind_run hwait (.bind (.read ?_))))
  exact .ite (fun _ => .bind (.note (.answer ⟨rfl, rfl⟩))) fun hshort => absurd hlong hshort

/-- If all intervals are credible, the level of the line in the stop bit decides. -/
theorem measureSync_credible (hrising : Rising line) (halternating : Alternating line)
    (h : AtEdge line x s) (hlow : x.level = false) (hs : s.source = rest)
    (hn : 1 ≤ s.decoder.config.syncIntervals)
    (hlength : s.decoder.config.syncIntervals ≤ rest.length)
    (hwithin : Within s.decoder.config.maxBitTime s.decoder.config.syncIntervals (x :: rest)) :
    let n := s.decoder.config.syncIntervals
    let e := edgeTime (x :: rest)
    let period := average (x :: rest) n
    Answers (measureSync x.time) s fun accepted s' xs =>
      accepted = levelAt false line (e n + period + period / 2) ∧
      (accepted = true → xs = syncByte e n period) ∧
      ∃ c, s'.decoder = { s.decoder with cursor := c, bitTime := period } := by
  intro n e period
  obtain ⟨y, rest, rfl⟩ := List.exists_cons_of_length_pos (Nat.lt_of_lt_of_le hn hlength)
  have hpred : s.decoder.config.syncIntervals = n - 1 + 1 := (Nat.sub_add_cancel hn).symm
  have hpos : 0 < period := by
    refine average_pos ?_ hn hlength
    have hread := h.hasRead
    rw [hs] at hread
    exact hread.rising_from hrising
  rw [hpred] at hlength hwithin
  obtain ⟨hgap, hwithin⟩ := within_succ.1 hwithin
  refine ends_measureSync_credible hrising halternating h hlow hs hgap (.bind ?_)
  refine (measureBits_credible hrising halternating (h.next hrising hs) rfl
    (Nat.le_of_succ_le_succ hlength) hwithin).imp ?_ fun _ _ _ hfalse => hfalse
  rintro credible s' _ ⟨rfl, ⟨z, hz, hlast⟩, ⟨c, source, rfl⟩, rfl⟩
  have hzn : z.time = e n := by
    rw [hlast]
    change e (n - 1 + 1) = e n
    rw [← hpred]
  refine .ite (fun _ => ?_) (by simp)
  have hperiod : (z.time - x.time + n / 2) / n = period := by
    rw [hzn]
    rfl
  refine (adoptPeriod_level hrising hz hn hperiod hpos).mono ?_
  rintro accepted s'' ys ⟨haccepted, hys, c', hd⟩
  rw [hzn] at haccepted hys
  refine ⟨haccepted, fun htrue => ?_, c', hd⟩
  rw [hys htrue]
  rfl

/-- An interval that is too long ends the attempt. -/
theorem measureSync_overlong {k : Nat} (hrising : Rising line) (halternating : Alternating line)
    (h : AtEdge line x s) (hlow : x.level = false) (hs : s.source = rest)
    (hm : 1 ≤ s.decoder.config.maxBitTime) (hk : k < s.decoder.config.syncIntervals)
    (hlength : k < rest.length) (hwithin : Within s.decoder.config.maxBitTime k (x :: rest))
    (hlong : s.decoder.config.maxBitTime <
      edgeTime (x :: rest) (k + 1) - edgeTime (x :: rest) k) :
    Answers (measureSync x.time) s fun accepted s' _ =>
      accepted = false ∧ ∃ c source, s' = s.on c source := by
  obtain ⟨y, rest, rfl⟩ := List.exists_cons_of_length_pos (Nat.zero_lt_of_lt hlength)
  cases k with
  | zero =>
    refine (answers_measureSync_long halternating h hlow hs hm hlong).mono ?_
    rintro accepted s' _ ⟨rfl, rfl⟩
    exact ⟨rfl, waited_eq_on⟩
  | succ k =>
    obtain ⟨hgap, hwithin⟩ := within_succ.1 hwithin
    refine ends_measureSync_credible hrising halternating h hlow hs hgap (.bind ?_)
    refine (measureBits_overlong hrising halternating (h.next hrising hs) rfl hm
      (Nat.lt_sub_of_add_lt hk) (Nat.lt_of_succ_lt_succ hlength) hwithin hlong).imp ?_ ?_
    · rintro credible s' _ ⟨rfl, c, source, rfl⟩
      exact .ite (by simp) fun _ => .answer ⟨rfl, c, source, rfl⟩
    · exact fun _ _ _ hfalse => hfalse

/-- The attempt fails with the line if that ends before there is an interval too long. -/
theorem measureSync_short (hrising : Rising line) (halternating : Alternating line)
    (h : AtEdge line x s) (hlow : x.level = false) (hs : s.source = rest)
    (hlength : rest.length < s.decoder.config.syncIntervals)
    (hwithin : Within s.decoder.config.maxBitTime s.decoder.config.syncIntervals (x :: rest)) :
    Ends (measureSync x.time) s (fun _ _ _ => False) fun e s' _ =>
      e = .endOfStream ∧ ∃ c source, s' = s.on c source := by
  cases rest with
  | nil =>
    unfold measureSync
    exact .bind (.read (.bind_error (run_waitEdge_short h hs _ _) ⟨rfl, _, _, rfl⟩))
  | cons y rest =>
    have hpred : s.decoder.config.syncIntervals = s.decoder.config.syncIntervals - 1 + 1 :=
      (Nat.sub_add_cancel (Nat.zero_lt_of_lt hlength)).symm
    rw [hpred] at hlength hwithin
    obtain ⟨hgap, hwithin⟩ := within_succ.1 hwithin
    refine ends_measureSync_credible hrising halternating h hlow hs hgap (.bind ?_)
    refine (measureBits_short hrising halternating (h.next hrising hs) rfl
      (Nat.lt_of_succ_lt_succ hlength) hwithin).imp ?_ ?_
    · exact fun _ _ _ hfalse => hfalse.elim
    · rintro e s' _ ⟨rfl, c, source, rfl⟩
      exact ⟨rfl, c, source, rfl⟩

/-- After its fall, an attempt is what is measured from there; a success is noted down. -/
theorem ends_trySync {Q : Bool → Session (List Sample) → List Annotation → Prop}
    {E : Halt → Session (List Sample) → List Annotation → Prop}
    (hwait : LineCursor.waitEdge .falling none s.decoder.cursor s.source =
      (.ok true, justRead x, rest))
    (hmeasure : Ends (measureSync x.time) { s.on (justRead x) rest with frameEnd := x.time }
      (fun accepted s' xs =>
        if accepted then
          Q true { s' with
            decoder.syncStart := x.time
            decoder.stats.syncs := s'.decoder.stats.syncs + 1 } xs
        else Q false s' [])
      fun e s' _ => E e s' []) :
    Ends trySync s Q E := by
  unfold trySync
  refine .bind_run (run_move hwait) (.bind (.read (.bind (.modify (.bind (.withhold ?_))))))
  refine hmeasure.imp ?_ fun _ _ _ he => he
  intro accepted s' xs hQ
  cases accepted with
  | true =>
    refine .ite (fun _ => .bind (.modify (.bind (.modify (.bind (.note (.answer ?_))))))) (by simp)
    simpa [Session.count, Session.now] using hQ
  | false => exact .ite (by simp) fun _ => .answer (by simpa using hQ)

/-- **What a sync attempt does** from any position of an alternating line.  With the edges from the
first fall on, it fails with the line if there are too few of them and none too late, it is
abandoned at the first that is too late, and otherwise their average is the new period, and the
level of the line in the stop bit decides whether the attempt succeeds.  Nothing is handed on but by
a success. -/
theorem trySync_outcome (hrising : Rising line) (halternating : Alternating line)
    (hreachable : Reachable line s.decoder.cursor s.source)
    (hn : 1 ≤ s.decoder.config.syncIntervals) (hm : 1 ≤ s.decoder.config.maxBitTime) :
    let n := s.decoder.config.syncIntervals
    let m := s.decoder.config.maxBitTime
    let es := (edgesLeft s.decoder.cursor s.source).dropWhile Sample.level
    let e := edgeTime es
    let period := (e n - e 0 + n / 2) / n
    (es.length ≤ n → Within m n es →
      Ends trySync s (fun _ _ _ => False) fun err s' xs => err = .endOfStream ∧ xs = [] ∧
        ∃ c, s'.decoder = { s.decoder with cursor := c }) ∧
    (∀ k < n, k + 1 < es.length → Within m k es → m < e (k + 1) - e k →
      Answers trySync s fun accepted s' xs => accepted = false ∧ xs = [] ∧
        ∃ c, s'.decoder = { s.decoder with cursor := c }) ∧
    (n < es.length → Within m n es →
      0 < period ∧
      Answers trySync s fun accepted s' xs =>
        accepted = levelAt false line (e n + period + period / 2) ∧
        if accepted then
          xs = syncByte e n period ∧
          ∃ c, s'.decoder = { s.decoder with
            cursor := c
            bitTime := period
            syncStart := e 0
            stats.syncs := s.decoder.stats.syncs + 1 }
        else xs = [] ∧ ∃ c, s'.decoder = { s.decoder with cursor := c, bitTime := period }) := by
  intro n m es
  cases hes : es with
  | nil =>
    obtain ⟨c, hwait⟩ := hreachable.waitEdge_fall_none hrising halternating hes
    refine ⟨fun _ _ => ?_, by simp, by simp⟩
    unfold trySync
    exact .bind_error (run_move hwait) ⟨rfl, rfl, c, rfl⟩
  | cons x rest =>
    obtain ⟨hwait, hread, hlow⟩ := hreachable.waitEdge_fall hrising halternating hes
    let s₁ : Session (List Sample) := { s.on (justRead x) rest with frameEnd := x.time }
    have hedge : AtEdge line x s₁ := ⟨rfl, hread, Nat.le_refl _⟩
    intro e period
    refine ⟨fun hlength hwithin => ?_, fun k hk hlength hwithin hlong => ?_,
      fun hlength hwithin => ⟨?_, ?_⟩⟩
    · refine ends_trySync hwait ((measureSync_short hrising halternating hedge hlow rfl hlength
        hwithin).imp ?_ ?_)
      · exact fun _ _ _ hfalse => hfalse.elim
      · rintro _ s' _ ⟨rfl, c, source, rfl⟩
        exact ⟨rfl, rfl, c, rfl⟩
    · refine ends_trySync hwait ((measureSync_overlong hrising halternating hedge hlow rfl hm hk
        (Nat.lt_of_succ_lt_succ hlength) hwithin hlong).imp ?_ fun _ _ _ hfalse => hfalse)
      rintro accepted s' _ ⟨rfl, c, source, rfl⟩
      exact ⟨rfl, rfl, c, rfl⟩
    · exact average_pos (hread.rising_from hrising) hn (Nat.le_of_lt_succ hlength)
    · refine ends_trySync hwait ((measureSync_credible hrising halternating hedge hlow rfl hn
        (Nat.le_of_lt_succ hlength) hwithin).imp ?_ fun _ _ _ hfalse => hfalse)
      rintro accepted s' xs ⟨haccepted, hxs, c, hd⟩
      cases accepted with
      | true =>
        refine ⟨haccepted, hxs rfl, c, ?_⟩
        rw [hd]
        rfl
      | false => exact ⟨haccepted, rfl, c, hd⟩

/-- Three intervals of two samples each, and then a line that stays high. -/
theorem trySync_outcome_three :
    let line : List Sample := [⟨0, true⟩, ⟨10, false⟩, ⟨12, true⟩, ⟨14, false⟩, ⟨16, true⟩]
    let s : Session (List Sample) :=
      { decoder := { config := { maxBitTime := 10, syncIntervals := 3 } }, source := line }
    Rising line ∧ Alternating line ∧ Reachable line s.decoder.cursor s.source ∧
      1 ≤ s.decoder.config.syncIntervals ∧ 1 ≤ s.decoder.config.maxBitTime ∧
      Answers trySync s fun accepted s' xs => accepted = true ∧
        xs = syncByte (edgeTime line.tail) 3 2 ∧ s'.decoder.samplesPerBit = some 2 := by
  intro line s
  have hrising : Rising line := by decide
  have halternating : Alternating line := by decide
  have hreachable : Reachable line s.decoder.cursor s.source := .start
  have hn : 1 ≤ s.decoder.config.syncIntervals := by decide
  have hm : 1 ≤ s.decoder.config.maxBitTime := by decide
  obtain ⟨-, -, haccept⟩ := trySync_outcome hrising halternating hreachable hn hm
  refine ⟨hrising, halternating, hreachable, hn, hm, ?_⟩
  refine ((haccept (by decide) (by unfold Within; decide)).2).mono ?_
  rintro accepted s' xs ⟨haccepted, hend⟩
  have htrue : accepted = true := by
    rw [haccepted]
    decide
  have hperiod : (edgeTime line.tail 3 - edgeTime line.tail 0 + 3 / 2) / 3 = 2 := by decide
  rw [if_pos htrue] at hend
  obtain ⟨hxs, c, hd⟩ := hend
  have hbitTime : s'.decoder.bitTime = 2 := by
    rw [hd]
    exact hperiod
  refine ⟨htrue, hxs.trans (congrArg (syncByte (edgeTime line.tail) 3) hperiod), ?_⟩
  rw [Decoder.samplesPerBit, hbitTime]
  rfl

end Attempt

end Reception

end Sessions

end Updi

end BusDecode
