import BusDecode.Proofs.Updi.Acquisition
import BusDecode.Proofs.Updi.Keeping
import BusDecode.Proofs.Updi.Likeness
import BusDecode.Proofs.Updi.RoundTrip

/-!
# Noise before a command

A low pulse on an idle line starts an attempt at a sync, which is abandoned at the first interval
that is too long.  An edge is awaited for three times the longest credible bit time, so the edge at
the end of that interval is left unread if it comes later still, and is used up if it comes sooner.
If it was the end of the pulse, either will do: the fall that opens the command is yet to come.  If
it was that fall itself, the attempt that should have begun there never does.  So a decoder does not
mind a pulse just in case the pulse is too long to be a bit, or the quiet after it is more than
three times too long (`decode_pulse`).
-/

set_option autoImplicit false

namespace BusDecode

namespace Updi

open LineCursor (Rising Alternating HasRead justRead levelAt)
open Script (Alike Answers Ends Keeps)

/-! ## Lines with a pulse -/

/-- A line that is high from `start` on but for a pulse, and then goes on as told. -/
def pulsed (start fall rise : Nat) (later : List Sample) : List Sample :=
  ⟨start, true⟩ :: ⟨fall, false⟩ :: ⟨rise, true⟩ :: later

/-- The samples of a line on which, after `lead` more samples, there is a pulse of a width, and
after some quiet commands are sent as `encode` has it. -/
def encodeAfterPulse (p start lead width quiet : Nat) (gap : Nat → Nat) (cs : List Command) :
    List Sample :=
  pulsed start (start + 1 + lead) (start + 1 + lead + width)
    (record p (frames p gap (start + 1 + lead + width + quiet) (cs.flatMap Command.symbols)))

section Lines

variable {p start fall rise opening : Nat} {later rest : List Sample}

theorem rising_pulsed (hfall : start < fall) (hrise : fall < rise)
    (h : Rising (⟨rise, true⟩ :: later)) : Rising (pulsed start fall rise later) := by
  have hlater := (List.pairwise_cons.1 h).1
  refine List.pairwise_cons.2 ⟨?_, List.pairwise_cons.2 ⟨?_, h⟩⟩
  · refine List.forall_mem_cons.2 ⟨hfall, List.forall_mem_cons.2 ⟨Nat.lt_trans hfall hrise, ?_⟩⟩
    exact fun x hx => Nat.lt_trans (Nat.lt_trans hfall hrise) (hlater x hx)
  · exact List.forall_mem_cons.2 ⟨hrise, fun x hx => Nat.lt_trans hrise (hlater x hx)⟩

theorem alternating_pulsed (h : Alternating (⟨rise, true⟩ :: later)) :
    Alternating (pulsed start fall rise later) :=
  List.isChain_cons_cons.2 ⟨by simp, List.isChain_cons_cons.2 ⟨by simp, h⟩⟩

theorem alternating_changes {α : Type} {c : Change α} (cs : List (Change α)) :
    (c :: changes c.level cs).IsChain fun c d => c.level ≠ d.level := by
  induction cs generalizing c with
  | nil => exact .singleton c
  | cons d cs ih =>
    unfold changes
    split
    · exact ih
    · exact List.isChain_cons_cons.2 ⟨Ne.symm ‹_›, ih⟩

theorem alternating_record (start : Nat) (fs : List (Frame Nat)) :
    Alternating (⟨start, true⟩ :: record p fs) := by
  have hchanges := alternating_changes (c := ⟨start, true⟩) (fs.flatMap (Frame.bits p))
  have hmap : ⟨start, true⟩ :: record p fs =
      (⟨start, true⟩ :: Frame.line p fs).map fun c => (⟨c.time, c.level⟩ : Sample) := rfl
  rw [hmap, Alternating, List.isChain_map]
  exact hchanges

/-- The first sample of frames is the fall that opens the first of them. -/
theorem record_frames (gap : Nat → Nat) (t : Nat) {xs : List Symbol} (hxs : xs ≠ []) :
    ∃ rest, record p (frames p gap t xs) = ⟨t, false⟩ :: rest := by
  obtain ⟨x, xs, rfl⟩ := List.exists_cons_of_ne_nil hxs
  obtain ⟨rest, h⟩ : ∃ rest, record p (frames p gap t (x :: xs)) = ⟨t + 0 * p, false⟩ :: rest :=
    ⟨_, rfl⟩
  rw [Nat.zero_mul, Nat.add_zero] at h
  exact ⟨rest, h⟩

theorem symbols_ne_nil {cs : List Command} (hcs : cs ≠ []) : cs.flatMap Command.symbols ≠ [] := by
  obtain ⟨c, cs, rfl⟩ := List.exists_cons_of_ne_nil hcs
  obtain ⟨xs, _, hsymbols, _⟩ := c.takes
  rw [List.flatMap_cons, hsymbols]
  exact List.cons_ne_nil _ _

end Lines

/-! ## The attempt that a pulse starts -/

/-- The session after an attempt was abandoned with its cursor elsewhere. -/
def Session.abandoned {σ : Type} (s : Session σ) (c : LineCursor) (source : σ) (frameEnd : Nat) :
    Session σ :=
  { (s.on c source).count fun k => { k with syncAbandoned := k.syncAbandoned + 1 } with frameEnd }

/-- Where the attempt leaves a cursor that began it at the pulse from `x` to `y`: on the line, and
before the next fall `z` unless that was awaited and found too late. -/
structure AfterPulse (m : Nat) (line : List Sample) (x y z : Sample) (rest : List Sample)
    (c : LineCursor) (source : List Sample) : Prop where
  hasRead : ∃ x, HasRead line x c source
  unread : m < y.time - x.time ∨ 3 * m < z.time - y.time →
    source.dropWhile Sample.level = z :: rest
  used : ¬(m < y.time - x.time ∨ 3 * m < z.time - y.time) → source = rest

namespace Reception

section Pulse

variable {line rest : List Sample} {x y z : Sample} {s : Session (List Sample)} {m : Nat}

theorem hasRead_waited (hrising : Rising line) (h : AtEdge line x s) (hs : s.source = y :: rest) :
    ∃ z c, HasRead line z c (if x.time + m * 3 < y.time then y :: rest else rest) ∧
      waited m s x y rest = s.on c (if x.time + m * 3 < y.time then y :: rest else rest) := by
  have hread := h.hasRead
  rw [hs] at hread
  unfold waited
  split
  · refine ⟨x, _, ⟨hread.split, rfl, rfl, Nat.le_add_right _ _, ?_⟩, rfl⟩
    exact (hread.rising hrising).ahead (Nat.le_of_lt ‹_›)
  · exact ⟨y, _, hread.next hrising, rfl⟩

theorem measureSync_pulse (hrising : Rising line) (halternating : Alternating line)
    (h : AtEdge line x s) (hs : s.source = y :: z :: rest) (hx : x.level = false)
    (hy : y.level = true) (hz : z.level = false) (hm : 1 ≤ s.decoder.config.maxBitTime)
    (hn : 2 ≤ s.decoder.config.syncIntervals)
    (hquiet : s.decoder.config.maxBitTime < z.time - y.time) :
    Answers (measureSync x.time) s fun accepted s' _ => accepted = false ∧
      ∃ c source, s' = s.on c source ∧
        AfterPulse s.decoder.config.maxBitTime line x y z rest c source := by
  have hnext := h.next hrising hs
  by_cases hwide : s.decoder.config.maxBitTime < y.time - x.time
  · obtain ⟨_, c, hread, hwaited⟩ :=
      hasRead_waited (m := s.decoder.config.maxBitTime) hrising h hs
    refine (answers_measureSync_long halternating h hx hs hm hwide).mono ?_
    rintro accepted s' _ ⟨rfl, rfl⟩
    refine ⟨rfl, c, _, hwaited, ⟨_, hread⟩, fun _ => ?_, fun hcostly => ?_⟩
    · split <;> simp [hy, hz]
    · exact absurd (.inl hwide) hcostly
  · have hpred : s.decoder.config.syncIntervals - 1 = s.decoder.config.syncIntervals - 2 + 1 := by
      omega
    obtain ⟨_, c, hread, hwaited⟩ :=
      hasRead_waited (m := s.decoder.config.maxBitTime) hrising hnext (rfl : _ = z :: rest)
    refine ends_measureSync_credible hrising halternating h hx hs (Nat.not_lt.1 hwide) (.bind ?_)
    rw [hpred]
    refine (answers_measureBits_long halternating hnext rfl hm hquiet).imp ?_ fun _ _ _ hfalse =>
      hfalse
    rintro credible s' _ ⟨rfl, rfl⟩
    refine .ite (fun hfalse => by cases hfalse) fun _ => .answer ?_
    refine ⟨rfl, c, _, hwaited, ⟨_, hread⟩, ?_, ?_⟩
    · intro hharmless
      have hlate : y.time + s.decoder.config.maxBitTime * 3 < z.time := by omega
      rw [if_pos hlate]
      exact List.dropWhile_cons_of_neg (by simp [hz])
    · intro hcostly
      have hsoon : ¬y.time + s.decoder.config.maxBitTime * 3 < z.time := by omega
      rw [if_neg hsoon]

/-- An attempt that is abandoned leaves nothing behind but its count. -/
theorem answers_attemptSync_abandoned {P : LineCursor → List Sample → Prop}
    (hwait : LineCursor.waitEdge .falling none s.decoder.cursor s.source =
      (.ok true, justRead x, rest))
    (hmeasure : Answers (measureSync x.time) { s.on (justRead x) rest with frameEnd := x.time }
      fun accepted s' _ => accepted = false ∧ ∃ c source,
        s' = Session.on { s.on (justRead x) rest with frameEnd := x.time } c source ∧ P c source) :
    Answers attemptSync s fun found s' xs => found = none ∧ xs = [] ∧
      ∃ c source, s' = s.abandoned c source x.time ∧ P c source := by
  unfold attemptSync
  refine .bind (ends_trySync hwait (hmeasure.imp ?_ fun _ _ _ hfalse => hfalse))
  rintro accepted s' _ ⟨rfl, c, source, rfl, hP⟩
  rw [if_neg Bool.false_ne_true, if_neg Bool.false_ne_true]
  exact .bind (.modify (.answer ⟨rfl, rfl, c, source, rfl, hP⟩))

end Pulse

end Reception

/-- A fresh decoder before a line that is high but for a pulse from `x` to `y`, and then quiet until
the fall `z`. -/
structure BeforePulse (d : Decoder) (w x y z : Sample) (rest : List Sample) : Prop where
  rising : Rising (w :: x :: y :: z :: rest)
  alternating : Alternating (w :: x :: y :: z :: rest)
  high : w.level = true
  fresh : d.cursor = {}
  limit : 1 ≤ d.config.maxBitTime
  intervals : 2 ≤ d.config.syncIntervals
  quiet : d.config.maxBitTime < z.time - y.time

namespace BeforePulse

variable {w x y z : Sample} {rest : List Sample} {d : Decoder}

theorem levels (h : BeforePulse d w x y z rest) :
    x.level = false ∧ y.level = true ∧ z.level = false := by
  have hx := h.alternating.second
  have hy := h.alternating.tail.second
  have hz := h.alternating.tail.tail.second
  rw [h.high] at hx
  rw [hx] at hy
  rw [hy] at hz
  exact ⟨hx, hy, hz⟩

/-- Without the pulse, the first wait for a fall ends at the opening. -/
theorem waitEdge_steady (h : BeforePulse d w x y z rest) :
    LineCursor.waitEdge .falling none d.cursor (w :: z :: rest) = (.ok true, justRead z, rest) := by
  obtain ⟨-, -, hz⟩ := h.levels
  have hsublist : (w :: z :: rest).Sublist (w :: x :: y :: z :: rest) :=
    (((List.Sublist.refl (z :: rest)).cons y).cons x).cons_cons w
  have hrising : Rising (w :: z :: rest) := h.rising.sublist hsublist
  have halternating : Alternating (w :: z :: rest) :=
    List.isChain_cons_cons.2 ⟨by simp [h.high, hz], h.alternating.tail.tail.tail⟩
  rw [h.fresh, LineCursor.waitEdge_fresh]
  exact ((HasRead.begin hrising).waitEdge_fall hrising halternating
    (List.dropWhile_cons_of_neg (by simp [hz]))).1

/-- The first attempt begins with the pulse and is abandoned. -/
theorem attemptSync (h : BeforePulse d w x y z rest) :
    Answers Reception.attemptSync { decoder := d, source := w :: x :: y :: z :: rest }
      fun found s' xs => found = none ∧ xs = [] ∧ ∃ c source,
        s' = Session.abandoned { decoder := d, source := w :: x :: y :: z :: rest } c source
          x.time ∧
        AfterPulse d.config.maxBitTime (w :: x :: y :: z :: rest) x y z rest c source := by
  obtain ⟨hx, hy, hz⟩ := h.levels
  have hfall : (x :: y :: z :: rest).dropWhile Sample.level = x :: y :: z :: rest :=
    List.dropWhile_cons_of_neg (by simp [hx])
  obtain ⟨hwait, hread, -⟩ := (HasRead.begin h.rising).waitEdge_fall h.rising h.alternating hfall
  rw [← LineCursor.waitEdge_fresh, ← h.fresh] at hwait
  refine Reception.answers_attemptSync_abandoned hwait ?_
  exact Reception.measureSync_pulse h.rising h.alternating ⟨rfl, hread, Nat.le_refl _⟩ rfl hx hy hz
    h.limit h.intervals h.quiet

end BeforePulse

/-! ## Pulses that do no harm -/

theorem looksSame_eq {σ : Type} [Source σ Sample] :
    LooksSame (Eq : LineCursor × σ → LineCursor × σ → Prop) where
  now := by
    rintro p _ rfl
    rfl
  wait := by
    rintro edge budget p _ rfl
    exact ⟨rfl, rfl⟩
  skip := by
    rintro count p _ rfl
    exact ⟨rfl, rfl⟩

section Harmless

variable {w x y z : Sample} {rest : List Sample} {d : Decoder}

/-- If the fall after a pulse is still to be read, the sync that starts with it is the one that the
line would have had without the pulse. -/
theorem BeforePulse.sync_alike (h : BeforePulse d w x y z rest)
    (hharmless : d.config.maxBitTime < y.time - x.time ∨
      3 * d.config.maxBitTime < z.time - y.time) :
    (Reception.sync.run { decoder := d, source := w :: z :: rest }).Alike (Session.Twin Eq 1)
      (Reception.sync.run { decoder := d, source := w :: x :: y :: z :: rest }) := by
  obtain ⟨_, _, effects, hrun, rfl, hitems, c, source, rfl, hafter⟩ := h.attemptSync.run
  obtain ⟨_, hread⟩ := hafter.hasRead
  obtain ⟨hwait', -, hz⟩ :=
    hread.waitEdge_fall h.rising h.alternating (hafter.unread hharmless)
  have hfirst : (Reception.attemptSync.run { decoder := d, source := w :: z :: rest }).Alike
      (Session.Twin Eq 1) (Reception.attemptSync.run
        (Session.abandoned { decoder := d, source := w :: x :: y :: z :: rest } c source
          x.time)) := by
    refine Reception.attemptSync_alike (Reception.trySync_alike looksSame_eq ?_ ?_)
    · rw [Reception.waitEdge, Reception.run_move h.waitEdge_steady, Reception.run_move hwait']
      exact ⟨rfl, fun n => ⟨rfl, ⟨rfl, rfl, rfl, rfl⟩, rfl, rfl, rfl, rfl⟩, rfl⟩
    · rw [Reception.waitEdge, Reception.run_move h.waitEdge_steady]
      simp
  have hlater := hfirst.loop ((Reception.congruence looksSame_eq).attemptSync)
    Reception.descends_attemptSync Reception.descends_attemptSync
  rw [Reception.run_sync_again hrun, ← Script.after_nil (Reception.sync.run _)]
  exact hlater.after hitems.symm

/-- Such a pulse changes nothing but the count of abandoned syncs. -/
theorem BeforePulse.decode_alike (h : BeforePulse d w x y z rest)
    (hrate : d.config.samplerate.isSome)
    (hharmless : d.config.maxBitTime < y.time - x.time ∨
      3 * d.config.maxBitTime < z.time - y.time) :
    (d.decode (w :: z :: rest) (#[] : Array Annotation)).sink =
        (d.decode (w :: x :: y :: z :: rest) (#[] : Array Annotation)).sink ∧
      (d.decode (w :: z :: rest) (#[] : Array Annotation)).state.decoder.Twin 1
        (d.decode (w :: x :: y :: z :: rest) (#[] : Array Annotation)).state.decoder := by
  have hrated : d.config.samplerate ≠ none := Option.isSome_iff_ne_none.1 hrate
  have hcommand := Reception.command_alike looksSame_eq (h.sync_alike hharmless)
  have hstep := step_alike (s := ⟨d, w :: z :: rest⟩) (t := ⟨d, w :: x :: y :: z :: rest⟩) rfl
    (fun hnone => absurd hnone hrated) hcommand
  obtain ⟨-, hstate, hitems⟩ := run_alike looksSame_eq hstep
  obtain ⟨_, hplain⟩ := decode_array hrate (w :: z :: rest)
  obtain ⟨_, hstruck⟩ := decode_array hrate (w :: x :: y :: z :: rest)
  rw [hplain, hstruck]
  exact ⟨congrArg List.toArray hitems, hstate.decoder⟩

end Harmless

/-! ## What a run opens with -/

/-- There are annotations, and the start of the first of them satisfies `p`. -/
def Opens (p : Nat → Prop) (xs : List Annotation) : Prop :=
  ∃ x ∈ xs.head?, p x.start

theorem Opens.append {p : Nat → Prop} {xs : List Annotation} (h : Opens p xs)
    (ys : List Annotation) : Opens p (xs ++ ys) := by
  obtain ⟨x, hx, hp⟩ := h
  exact ⟨x, by rw [List.head?_append, hx]; rfl, hp⟩

section Opening

variable {p : Nat → Prop} {s : Session (List Sample)}

namespace Reception

/-- Whatever a measurement accepts opens with its start bit. -/
theorem ends_measureSync_opens (start : Nat) :
    Ends (measureSync start) s (fun accepted _ xs => accepted = true → Opens (· = start) xs)
      fun _ _ _ => True := by
  unfold measureSync
  refine .bind (.read (.bind ((ends_waitEdge _ _).imp ?_ fun _ _ _ _ => trivial)))
  rintro _ s₁ _ rfl
  refine .bind (.read (.ite (fun _ => .bind (.note (.answer (by simp)))) fun _ => .bind (.emit ?_)))
  exact .always (fun _ _ xs _ => ⟨_, rfl, rfl⟩) fun _ _ _ => trivial

/-- A sync opens with the start bit of the attempt that succeeded, or nothing is handed on. -/
theorem ends_attemptSync_opens :
    Ends attemptSync s
      (fun found s' xs => match found with
        | some _ => Opens (· = s'.decoder.syncStart) xs
        | none => xs = [])
      fun _ _ xs => xs = [] := by
  unfold attemptSync trySync
  refine .bind (.bind ((ends_waitEdge _ _).imp ?_ fun _ _ _ hxs => hxs))
  rintro _ s₁ _ rfl
  refine .bind (.read (.bind (.modify (.bind (.withhold
    ((ends_measureSync_opens s₁.now).imp ?_ ?_))))))
  · rintro accepted s₂ xs hopens
    cases accepted with
    | true =>
      refine .ite (fun _ => ?_) (by simp)
      refine .bind (.modify (.bind (.modify (.bind (.note (.answer ?_))))))
      refine .ite (fun _ => .answer ?_) (by simp)
      simpa [Session.count] using hopens rfl
    | false =>
      refine .ite (by simp) fun _ => .answer (.ite (by simp) fun _ => .bind (.modify (.answer ?_)))
      simp
  · exact fun _ _ _ _ => rfl

theorem ends_sync_opens :
    Ends sync s (fun _ s' xs => Opens (· = s'.decoder.syncStart) xs) fun _ _ xs => xs = [] := by
  refine .loop_quiet (I := fun _ => True) trivial fun s _ => ends_attemptSync_opens.mono ?_
  rintro (_ | _) s' xs hopens
  · exact ⟨trivial, hopens⟩
  · exact hopens

/-- A command opens with its sync. -/
theorem ends_command_opens {E : List Annotation → Prop}
    (hsync : Ends sync s (fun _ _ xs => Opens p xs) fun _ _ xs => E xs) :
    Ends command s (fun _ _ xs => Opens p xs) fun _ _ xs => E xs ∨ Opens p xs := by
  unfold command
  refine .bind (hsync.imp ?_ fun _ _ _ hxs => .inl hxs)
  exact fun _ _ xs hopens => .always (fun _ _ ys => hopens.append ys) fun _ _ ys =>
    .inr (hopens.append ys)

end Reception

/-- A run opens with its first sync, if there is one. -/
theorem run_opens {E : List Annotation → Prop} {d : Decoder} {source : List Sample}
    (hrate : d.config.samplerate.isSome)
    (hsync : Ends Reception.sync { decoder := d, source } (fun _ _ xs => Opens p xs)
      fun _ _ xs => E xs) :
    E (Decoder.run.run ⟨d, source⟩).items ∨ Opens p (Decoder.run.run ⟨d, source⟩).items := by
  have hstep : Ends Decoder.step ⟨d, source⟩ (fun _ _ xs => Opens p xs) fun _ _ xs =>
      E xs ∨ Opens p xs := .of_mapState (run_step hrate) (Reception.ends_command_opens hsync)
  unfold Ends at hstep
  rcases hrun : Decoder.step.run ⟨d, source⟩ with ⟨e | _, s', effects⟩ <;> rw [hrun] at hstep
  · rw [Decoder.run_step_error hrun]
    exact hstep
  · rw [Decoder.run_step_ok hrun, Trace.items_after]
    exact .inr (hstep.append _)

end Opening

/-! ## Pulses that cost a command -/

section Costly

variable {line rest : List Sample} {s s' : Session (List Sample)}

/-- The cursor of a session has begun to read the line. -/
def Begun (line : List Sample) (s : Session (List Sample)) : Prop :=
  ∃ x, HasRead line x s.decoder.cursor s.source

/-- Having begun to read the line, a session reads on. -/
def ReadsOn (line : List Sample) (s s' : Session (List Sample)) : Prop :=
  Begun line s → Begun line s' ∧ s'.source <:+ s.source

instance : Std.Refl (ReadsOn line) :=
  ⟨fun _ h => ⟨h, List.suffix_refl _⟩⟩

instance : Trans (ReadsOn line) (ReadsOn line) (ReadsOn line) where
  trans h h' hbegun := by
    obtain ⟨hbegun, hsuffix⟩ := h hbegun
    obtain ⟨hbegun, hsuffix'⟩ := h' hbegun
    exact ⟨hbegun, hsuffix'.trans hsuffix⟩

/-- Reading on comes down to staying on the line with no more of it left. -/
theorem ReadsOn.of_length (h : Begun line s → Begun line s')
    (hlength : s'.source.length ≤ s.source.length) : ReadsOn line s s' := by
  intro hbegun
  obtain ⟨x, hread⟩ := hbegun
  obtain ⟨y, hread'⟩ := h ⟨x, hread⟩
  exact ⟨⟨y, hread'⟩, List.suffix_of_suffix_length_le hread'.suffix hread.suffix hlength⟩

theorem readsOn_moves (hrising : Rising line) (halternating : Alternating line) :
    KeptByMoves (ReadsOn line) where
  wait edge budget s := by
    refine .of_length ?_ (LineCursor.size_waitEdge_le edge budget s.decoder.cursor s.source)
    rintro ⟨x, hread⟩
    exact hread.wait hrising halternating edge budget
  skip count s := by
    refine .of_length ?_ (LineCursor.size_skip_le count s.decoder.cursor s.source)
    rintro ⟨x, hread⟩
    exact hread.skip hrising count
  aside s s' h := by
    obtain ⟨hsource, n, hd⟩ := h
    refine .of_length (fun hbegun => ?_) (Nat.le_of_eq (congrArg List.length hsource))
    unfold Begun
    rw [hsource, hd]
    exact hbegun
  frameError s := .of_length id (Nat.le_refl _)

namespace Reception

/-- An attempt begins at a fall that was still to be read. -/
theorem ends_attemptSync_begun (hrising : Rising line) (halternating : Alternating line)
    (h : Begun line s) :
    Ends attemptSync s
      (fun found s' _ => (Begun line s' ∧ s'.source <:+ s.source) ∧
        (found = some () → ∃ y ∈ s.source, s'.decoder.syncStart = y.time))
      fun _ _ _ => True := by
  obtain ⟨x, hread⟩ := h
  unfold attemptSync
  rcases hfall : s.source.dropWhile Sample.level with _ | ⟨y, later⟩
  · obtain ⟨c, hwait⟩ := hread.waitEdge_fall_none hrising halternating hfall
    unfold trySync
    exact .bind (.bind_error (run_move hwait) trivial)
  · obtain ⟨hwait, hread', -⟩ := hread.waitEdge_fall hrising halternating hfall
    have hleft : y :: later <:+ s.source := hfall ▸ List.dropWhile_suffix _
    have hy : y ∈ s.source := hleft.subset List.mem_cons_self
    have hkept := keeps_measureSync (readsOn_moves hrising halternating)
      (fun s n => .of_length id (Nat.le_refl _)) y.time
    refine .bind (ends_trySync hwait ((hkept.ends _).imp ?_ fun _ _ _ _ => trivial))
    intro accepted s' _ hon
    obtain ⟨hbegun, hsuffix⟩ := hon ⟨y, hread'⟩
    have hend : Begun line s' ∧ s'.source <:+ s.source :=
      ⟨hbegun, (hsuffix.trans (List.suffix_cons _ _)).trans hleft⟩
    cases accepted with
    | true =>
      rw [if_pos rfl, if_pos rfl]
      exact .answer ⟨hend, fun _ => ⟨y, hy, rfl⟩⟩
    | false =>
      rw [if_neg Bool.false_ne_true, if_neg Bool.false_ne_true]
      exact .bind (.modify (.answer ⟨hend, by simp⟩))

/-- A sync from a position on begins at a fall that was still to be read. -/
theorem ends_sync_begun {t : Nat} (hrising : Rising line) (halternating : Alternating line)
    (h : Begun line s) (hs : s.source <:+ rest) (hlater : ∀ y ∈ rest, t < y.time) :
    Ends sync s (fun _ _ xs => Opens (t < ·) xs) fun _ _ xs => xs = [] := by
  let I (s : Session (List Sample)) : Prop := Begun line s ∧ s.source <:+ rest
  refine .loop_quiet (I := I) ⟨h, hs⟩ fun s ⟨h, hs⟩ => ?_
  refine ((ends_attemptSync_begun hrising halternating h).and ends_attemptSync_opens).imp ?_ ?_
  · rintro found s' xs ⟨⟨⟨hbegun, hsuffix⟩, hfound⟩, hopens⟩
    cases found with
    | none => exact ⟨⟨hbegun, hsuffix.trans hs⟩, hopens⟩
    | some _ =>
      obtain ⟨y, hy, hstart⟩ := hfound rfl
      obtain ⟨x, hx, hxstart⟩ := hopens
      refine ⟨x, hx, ?_⟩
      rw [hxstart, hstart]
      exact hlater y (hs.subset hy)
  · exact fun _ _ _ hend => hend.2

end Reception

namespace BeforePulse

variable {w x y z : Sample} {d : Decoder}

/-- Without the pulse the first sync begins with the opening. -/
theorem sync_steady {wave : Nat → Bool} {Good : Nat → Prop} {xs : List Symbol}
    (h : BeforePulse d w x y z rest)
    (hexpects : Expects wave Good d (w :: z :: rest) (.sync :: xs)) :
    Answers Reception.sync { decoder := d, source := w :: z :: rest } fun _ _ xs =>
      Opens (· = z.time) xs := by
  obtain ⟨now, hreads, hcarries⟩ := hexpects.carries
  cases hcarries with
  | sync e hnow hhigh hedges _ hstop _ =>
    obtain ⟨_, hwait, -⟩ :=
      LineCursor.waitEdge_fall hreads hnow hhigh (hedges.level_edge (Nat.zero_le 8))
    rw [h.waitEdge_steady] at hwait
    have hstart : z.time = e 0 := congrArg (fun r => r.2.1.now) hwait
    obtain ⟨s', effects, hrun, -, -, hd, -⟩ :=
      Reception.run_sync (s := { decoder := d, source := w :: z :: rest }) hedges hreads hnow hhigh
        hexpects.intervals hstop
    have hopens := Reception.ends_sync_opens (s := { decoder := d, source := w :: z :: rest })
    unfold Answers Ends at *
    rw [hrun] at hopens ⊢
    dsimp only at hopens ⊢
    rw [hd] at hopens
    rw [hstart]
    exact hopens

/-- If a pulse has used up the opening, the first sync begins later. -/
theorem sync_costly (h : BeforePulse d w x y z rest)
    (hcostly : ¬(d.config.maxBitTime < y.time - x.time ∨
      3 * d.config.maxBitTime < z.time - y.time)) :
    Ends Reception.sync { decoder := d, source := w :: x :: y :: z :: rest }
      (fun _ _ xs => Opens (z.time < ·) xs) fun _ _ xs => xs = [] := by
  obtain ⟨_, _, effects, hrun, rfl, hitems, c, source, rfl, hafter⟩ := h.attemptSync.run
  have hsource : source = rest := hafter.used hcostly
  have hlater : ∀ u ∈ rest, z.time < u.time :=
    (List.pairwise_cons.1 (List.Pairwise.tail (List.Pairwise.tail (List.Pairwise.tail h.rising)))).1
  refine .of_after (Reception.run_sync_again hrun) hitems ?_
  exact Reception.ends_sync_begun h.rising h.alternating hafter.hasRead
    (hsource ▸ List.suffix_refl _) hlater

/-- Such a pulse changes what is handed on. -/
theorem decode_ne {wave : Nat → Bool} {Good : Nat → Prop} {xs : List Symbol}
    (h : BeforePulse d w x y z rest) (hrate : d.config.samplerate.isSome)
    (hexpects : Expects wave Good d (w :: z :: rest) (.sync :: xs))
    (hcostly : ¬(d.config.maxBitTime < y.time - x.time ∨
      3 * d.config.maxBitTime < z.time - y.time)) :
    (d.decode (w :: x :: y :: z :: rest) (#[] : Array Annotation)).sink ≠
      (d.decode (w :: z :: rest) (#[] : Array Annotation)).sink := by
  obtain ⟨_, hplain⟩ := decode_array hrate (w :: z :: rest)
  obtain ⟨_, hstruck⟩ := decode_array hrate (w :: x :: y :: z :: rest)
  have hearly := run_opens hrate (h.sync_steady hexpects)
  have hlate := run_opens hrate (h.sync_costly hcostly)
  rw [hplain, hstruck]
  intro hsame
  have hitems : (Decoder.run.run ⟨d, w :: x :: y :: z :: rest⟩).items =
      (Decoder.run.run ⟨d, w :: z :: rest⟩).items := List.toArray_inj hsame
  obtain ⟨u, hu, hstart⟩ := hearly.resolve_left id
  rw [← hitems] at hu
  rcases hlate with hnone | ⟨v, hv, hlater⟩
  · rw [hnone] at hu
    cases hu
  · obtain rfl : u = v := Option.mem_unique hu hv
    exact Nat.ne_of_gt hlater hstart

end BeforePulse

end Costly

/-! ## Encoded commands after a pulse -/

section Encoded

variable {p width quiet : Nat}

/-- With and without the pulse, samples of encoded commands up to the fall that opens the first. -/
theorem beforePulse_encode {d : Decoder} (hfresh : d.cursor = {})
    (hintervals : 2 ≤ d.config.syncIntervals) (hp : 1 ≤ p) (hmax : p ≤ d.config.maxBitTime)
    (start lead : Nat) (hwidth : 1 ≤ width) (hquiet : d.config.maxBitTime < quiet)
    (gap : Nat → Nat) {cs : List Command} (hcs : cs ≠ []) :
    ∃ rest, encodeAfterPulse p start lead width quiet gap cs =
        ⟨start, true⟩ :: ⟨start + 1 + lead, false⟩ :: ⟨start + 1 + lead + width, true⟩ ::
          ⟨start + 1 + lead + width + quiet, false⟩ :: rest ∧
      encode p start (lead + width + quiet) gap cs =
        ⟨start, true⟩ :: ⟨start + 1 + lead + width + quiet, false⟩ :: rest ∧
      BeforePulse d ⟨start, true⟩ ⟨start + 1 + lead, false⟩ ⟨start + 1 + lead + width, true⟩
        ⟨start + 1 + lead + width + quiet, false⟩ rest := by
  have hopening : start + 1 + (lead + width + quiet) = start + 1 + lead + width + quiet := by omega
  let fs := frames p gap (start + 1 + lead + width + quiet) (cs.flatMap Command.symbols)
  obtain ⟨rest, hrest⟩ : ∃ rest, record p fs = ⟨start + 1 + lead + width + quiet, false⟩ :: rest :=
    record_frames gap _ (symbols_ne_nil hcs)
  have hlater : ∀ f ∈ fs, start + 1 + lead + width < f.start := by
    intro f hf
    have := start_le_frames f hf
    omega
  have hrising := rising_record hp spaced_frames hlater
  have halternating := alternating_record (p := p) (start + 1 + lead + width) fs
  rw [hrest] at hrising halternating
  refine ⟨rest, ?_, ?_, ?_⟩
  · rw [encodeAfterPulse, hrest, pulsed]
  · rw [encode, hopening, hrest]
  · exact {
      rising := rising_pulsed (by omega) (by omega) hrising
      alternating := alternating_pulsed halternating
      high := rfl
      fresh := hfresh
      limit := Nat.le_trans hp hmax
      intervals := hintervals
      quiet := by
        dsimp only
        omega }

/-- **A pulse before commands** is forgotten just in case it is too long to be a bit, or the quiet
after it outlasts the wait for an edge.  Otherwise it uses up the fall that opens the first command,
and what is handed on is not what the commands alone would give. -/
theorem decode_pulse (name : String) {config : Config} (hrate : config.samplerate.isSome)
    (hintervals : config.syncIntervals = 8) (hp : 1 ≤ p) (hmax : p ≤ config.maxBitTime)
    (start lead : Nat) (hwidth : 1 ≤ width) (hquiet : config.maxBitTime < quiet) (gap : Nat → Nat)
    {cs : List Command} (hcs : cs ≠ []) :
    let d : Decoder := { name, config }
    (d.decode (encodeAfterPulse p start lead width quiet gap cs) (#[] : Array Annotation)).sink =
        (d.decode (encode p start (lead + width + quiet) gap cs) (#[] : Array Annotation)).sink ↔
      config.maxBitTime < width ∨ 3 * config.maxBitTime < quiet := by
  intro d
  have hmany : 2 ≤ d.config.syncIntervals := hintervals ▸ by decide
  obtain ⟨rest, hstruck, hplain, h⟩ :=
    beforePulse_encode (d := d) rfl hmany hp hmax start lead hwidth hquiet gap hcs
  obtain ⟨wave, hexpects⟩ :=
    expects_encode (d := d) rfl hintervals hp hmax start (lead + width + quiet) gap cs
  obtain ⟨c, cs, rfl⟩ := List.exists_cons_of_ne_nil hcs
  obtain ⟨xs, _, hsymbols, _⟩ := c.takes
  rw [hplain, List.flatMap_cons, hsymbols, List.cons_append] at hexpects
  rw [hstruck, hplain]
  have hwide : start + 1 + lead + width - (start + 1 + lead) = width := by omega
  have hlong : start + 1 + lead + width + quiet - (start + 1 + lead + width) = quiet := by omega
  constructor
  · intro hsame
    by_contra hcostly
    refine h.decode_ne hrate hexpects ?_ hsame
    dsimp only
    rwa [hwide, hlong]
  · intro hharmless
    refine (h.decode_alike hrate ?_).1.symm
    dsimp only
    rwa [hwide, hlong]

/-- A pulse of twenty samples, longer than a bit can be. -/
theorem decode_pulse_wide :
    let d : Decoder := { config := { samplerate := some 1000000, maxBitTime := 10 } }
    let cs : List Command := [.single (.ldcs 0) (0x30 : UInt8)]
    d.config.samplerate.isSome ∧ d.config.syncIntervals = 8 ∧ 1 ≤ 2 ∧ 2 ≤ d.config.maxBitTime ∧
      1 ≤ 20 ∧ d.config.maxBitTime < 11 ∧ cs ≠ [] ∧
      (d.decode (encodeAfterPulse 2 0 4 20 11 (fun _ => 0) cs) (#[] : Array Annotation)).sink =
        (d.decode (encode 2 0 35 (fun _ => 0) cs) (#[] : Array Annotation)).sink := by
  intro d cs
  have hne : cs ≠ [] := List.cons_ne_nil _ _
  have hmax : 2 ≤ d.config.maxBitTime := by decide
  have hquiet : d.config.maxBitTime < 11 := by decide
  have hwide : d.config.maxBitTime < 20 := by decide
  refine ⟨rfl, rfl, by decide, hmax, by decide, hquiet, hne, ?_⟩
  exact (decode_pulse "avr_updi" rfl rfl (by decide) hmax 0 4 (by decide) hquiet (fun _ => 0) hne).2
    (.inl hwide)

/-- A pulse of one sample and eleven samples of quiet, where ten are the longest credible bit: the
register that is read without the pulse is lost after it. -/
theorem decode_pulse_lost :
    let d : Decoder := { config := { samplerate := some 1000000, maxBitTime := 10 } }
    let cs : List Command := [.single (.ldcs 0) (0x30 : UInt8)]
    let plain := (d.decode (encode 2 0 16 (fun _ => 0) cs) (#[] : Array Annotation)).sink
    let struck :=
      (d.decode (encodeAfterPulse 2 0 4 1 11 (fun _ => 0) cs) (#[] : Array Annotation)).sink
    d.config.syncIntervals = 8 ∧ 1 ≤ d.config.maxBitTime ∧ 2 ≤ d.config.maxBitTime ∧
      d.config.maxBitTime < 11 ∧
      rowTexts "updi" plain.toList = [["LDCS [00] <- 30", "LDCS"]] ∧ struck = #[] ∧
      struck ≠ plain := by
  decide +kernel

end Encoded

end Updi

end BusDecode
