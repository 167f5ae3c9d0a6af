import BusDecode.Proofs.Updi.Keeping
import BusDecode.Proofs.Updi.Order

/-!
# The range of the bit period

A period is a rounded average of intervals, and an interval longer than the longest credible bit
time ends the attempt to measure one.  So no period is longer than that (`adoptPeriod_inRange`), and
none is zero.  Bytes are read only behind a sync, and reading them leaves the period alone: a
command reads every byte at a period in range (`command_bytewise`), whatever became of the decoder
before (`period_in_range`).
-/

set_option autoImplicit false

namespace BusDecode

namespace Updi

open Script (Shows Upholds)

/-- The rounded average of intervals is no longer than all of them may be. -/
theorem average_le {total m n : Nat} (hn : n ≠ 0) (h : total ≤ n * m) :
    (total + n / 2) / n ≤ m := by
  have hhalf : n / 2 < n := Nat.div_lt_self (Nat.pos_of_ne_zero hn) (by decide)
  rw [← Nat.lt_succ_iff, Nat.div_lt_iff_lt_mul (Nat.pos_of_ne_zero hn), Nat.succ_mul, Nat.mul_comm]
  omega

/-! ## Decoders with a period in range -/

/-- The period is no longer than the longest credible bit time, and if that is zero there has been
no sync. -/
structure InRange (m : Nat) (d : Decoder) : Prop where
  config : d.config.maxBitTime = m
  period : d.bitTime ≤ m
  syncs : m = 0 → d.stats.syncs = 0

/-- A session whose decoder has a period, and one in range. -/
def AtRate {σ : Type} (m : Nat) (s : Session σ) : Prop :=
  1 ≤ s.decoder.bitTime ∧ s.decoder.bitTime ≤ m

section Sessions

variable {σ : Type} {m : Nat} {s s' : Session σ}

theorem InRange.unsynced (h : InRange m s.decoder) (hs : Unsynced s s') : InRange m s'.decoder where
  config := by rw [hs.config, h.config]
  period := by rw [hs.bitTime]; exact h.period
  syncs hzero := by rw [hs.syncs, h.syncs hzero]

theorem AtRate.unsynced (h : AtRate m s) (hs : Unsynced s s') : AtRate m s' := by
  rwa [AtRate, hs.bitTime]

end Sessions

/-! ## Measuring -/

namespace Reception

variable {σ ε α : Type} {m : Nat} {xs : List Annotation} {s : Session σ}

/-- A part of a sync attempt that leaves the period in range; an answer satisfies `Q` besides. -/
abbrev Ranges (m : Nat) (part : Reception σ ε α) (xs : List Annotation) (s : Session σ)
    (Q : α → Session σ → Prop) : Prop :=
  Upholds (fun _ s => InRange m s.decoder) part xs s fun a _ t => Q a t

theorem ranges_unsynced {p : Annotation → Prop} {part : Reception σ ε α}
    (h : Shows Unsynced p part) : Ranges m part xs s fun _ => Unsynced s :=
  .of_shows h fun _ _ hrange hs => hrange.unsynced hs

variable [Source σ Sample]

theorem ranges_waitEdge (edge : Edge) (budget : Option Nat) :
    Ranges m (waitEdge edge budget) xs s fun _ => Unsynced s :=
  ranges_unsynced (p := fun _ => True) (shows_move (unsynced_moves.wait edge budget))

/-- As long as the edges are credible, so many of them take no longer than so many times the longest
credible bit time. -/
theorem measureBits_ranges (n : Nat) (xs : List Annotation) (s : Session σ) :
    Ranges m (measureBits m n) xs s fun credible t => credible = true → t.now - s.now ≤ n * m := by
  induction n generalizing xs s with
  | zero => exact .answer fun _ => by simp
  | succ n ih =>
    refine .bind (.read (.bind ((ranges_waitEdge _ _).mono fun _ ys s₁ _ _ => ?_)))
    refine .bind (.read (.ite (fun _ => .bind (.note (.answer nofun))) fun hcredible => ?_))
    refine .bind (.emit id ((ih _ s₁).mono fun credible _ t _ ht htrue => ?_))
    have hrest := ht htrue
    rw [Nat.succ_mul]
    omega

theorem adoptPeriod_ranges {start n : Nat} (h : n ≠ 0 → s.now - start ≤ n * m) :
    Ranges m (adoptPeriod start n) xs s fun accepted t =>
      accepted = true → 1 ≤ t.decoder.bitTime := by
  unfold adoptPeriod
  refine .bind (.read (.ite (fun _ => .fail) fun hn => .ite (fun _ => .answer nofun) fun hne => ?_))
  refine .bind (.modify (fun hrange => ⟨hrange.config, average_le hn (h hn), hrange.syncs⟩) ?_)
  refine (ranges_unsynced (shows_finishSync unsynced_moves start)).mono fun _ _ t _ ht _ => ?_
  rw [ht.bitTime]
  exact Nat.one_le_iff_ne_zero.2 hne

theorem measureSync_ranges (start : Nat) :
    Ranges m (measureSync start) xs s fun accepted t =>
      accepted = true → 1 ≤ t.decoder.bitTime := by
  refine .assuming fun hrange => ?_
  unfold measureSync
  refine .bind (.read ?_)
  rw [hrange.config]
  refine .bind ((ranges_waitEdge _ _).mono fun _ ys s₁ _ _ => ?_)
  refine .bind (.read (.ite (fun _ => .bind (.note (.answer nofun))) fun hcredible => ?_))
  refine .bind (.emit id (.bind ((measureBits_ranges _ _ s₁).mono fun credible zs s₂ _ hbits => ?_)))
  refine .ite (fun htrue => adoptPeriod_ranges fun hn => ?_) fun _ => .answer nofun
  have hrest := hbits htrue
  obtain ⟨n, hn'⟩ := Nat.exists_eq_add_one_of_ne_zero hn
  rw [hn', Nat.succ_mul]
  rw [hn', Nat.add_sub_cancel] at hrest
  omega

theorem trySync_ranges (xs : List Annotation) (s : Session σ) :
    Ranges m trySync xs s fun accepted t => accepted = true → 1 ≤ t.decoder.bitTime := by
  unfold trySync
  refine .bind ((ranges_waitEdge _ _).mono fun _ ys s₁ _ _ => .bind (.read (.bind (.modify id ?_))))
  refine .bind (.withhold (fun _ _ _ h => h) ((measureSync_ranges _).mono ?_))
  intro accepted zs s₂ hrange hperiod
  refine .ite (fun htrue => .bind (.modify (fun h => ⟨h.config, h.period, h.syncs⟩) ?_))
    fun _ => .answer nofun
  have hpos : 1 ≤ m := Nat.le_trans (hperiod htrue) hrange.period
  refine .bind (.modify (fun h => ⟨h.config, h.period, fun hzero => ?_⟩) ?_)
  · omega
  · exact .bind (.note (.answer fun _ => hperiod htrue))

/-- A sync leaves a period. -/
theorem sync_ranges (xs : List Annotation) (s : Session σ) :
    Ranges m sync xs s fun _ t => 1 ≤ t.decoder.bitTime := by
  refine .loop (fun ys s => ?_) xs s
  refine .bind ((trySync_ranges ys s).mono fun accepted zs s₁ _ hperiod => ?_)
  refine .ite (fun htrue => .answer fun _ _ => hperiod htrue) fun _ => ?_
  exact .bind (.modify (fun h => ⟨h.config, h.period, h.syncs⟩) (.answer nofun))

end Reception

/-! ## Bytes at a rate -/

section Bytes

variable {σ : Type} [Source σ Sample] {ε α : Type} {m : Nat} {s : Session σ}

/-- A run that moves along the line by bytes and syncs alone, and reads every byte while `I` holds,
from its first sample on and whenever one can look. -/
inductive Bytewise (I : Session σ → Prop) :
    Session σ → Trace (Session σ) Annotation ε α → Prop
  | done (r : Except ε α) (s : Session σ) : Bytewise I s ⟨r, s, []⟩
  | say {s : Session σ} {t : Trace (Session σ) Annotation ε α} (a : Annotation)
      (h : Bytewise I s t) : Bytewise I s (t.after [.emit a s])
  | note {s : Session σ} {t : Trace (Session σ) Annotation ε α} (event : Event)
      (h : Bytewise I s t) : Bytewise I s (t.after [.note event])
  | aside {s s' : Session σ} {t : Trace (Session σ) Annotation ε α} (hs : Aside s s')
      (h : Bytewise I s' t) : Bytewise I s t
  | byte {s s' : Session σ} {r : Except Interrupt UInt8}
      {effects : List (Effect (Session σ) Annotation)} {t : Trace (Session σ) Annotation ε α}
      (hr : Reception.readByte.run s = ⟨r, s', effects⟩) (hI : I s)
      (hread : (Reception.readByte.run s).Throughout fun _ => I) (h : Bytewise I s' t) :
      Bytewise I s (t.after effects)
  | sync {s s' : Session σ} {r : Except Halt Unit}
      {effects : List (Effect (Session σ) Annotation)} {t : Trace (Session σ) Annotation ε α}
      (hr : Reception.sync.run s = ⟨r, s', effects⟩) (h : Bytewise I s' t) :
      Bytewise I s (t.after effects)

namespace Bytewise

/-- How a run ends is of no account. -/
theorem withResult {ε' α' : Type} {I : Session σ → Prop} {t : Trace (Session σ) Annotation ε α}
    (h : Bytewise I s t) (r : Except ε' α') : Bytewise I s ⟨r, t.state, t.effects⟩ := by
  induction h with
  | done _ s => exact .done r s
  | say a h ih => exact .say a ih
  | note event h ih => exact .note event ih
  | aside hs h ih => exact .aside hs ih
  | byte hr hI hread h ih => exact .byte hr hI hread ih
  | sync hr h ih => exact .sync hr ih

/-- The period stays in range all along, whether or not a byte is being read. -/
theorem inRange {I : Session σ → Prop} {t : Trace (Session σ) Annotation ε α}
    (h : Bytewise I s t) (hrange : InRange m s.decoder) :
    t.Throughout fun _ s => InRange m s.decoder := by
  induction h with
  | done r s => exact .notes [] hrange
  | @say s t a h ih =>
    have hone : Trace.Throughout (fun _ s => InRange m s.decoder)
        (⟨.ok (), s, ([] : List Event).map .note ++ [.emit a s]⟩ :
          Trace (Session σ) Annotation Halt Unit) := .one hrange
    exact hone.after (ih hrange)
  | @note s t event h ih =>
    have hnote : Trace.Throughout (fun _ s => InRange m s.decoder)
        (⟨.ok (), s, [event].map .note⟩ : Trace (Session σ) Annotation Halt Unit) :=
      .notes _ hrange
    exact hnote.after (ih hrange)
  | aside hs h ih => exact ih (hrange.unsynced hs.unsynced)
  | @byte s s' r effects t hr hI hread h ih =>
    have hranges : Reception.Ranges m Reception.readByte [] s fun _ => Unsynced s :=
      Reception.ranges_unsynced (Reception.shows_readByte unsynced_moves)
    have hbyte := hranges.throughout hrange
    rw [hr] at hbyte
    exact hbyte.after (ih hbyte.last)
  | @sync s s' r effects t hr h ih =>
    have hsync := (Reception.sync_ranges [] s).throughout hrange
    rw [hr] at hsync
    exact hsync.after (ih hsync.last)

end Bytewise

/-- Reading a byte at a rate leaves the decoder at that rate, all along and in the end. -/
theorem readByte_atRate (h : AtRate m s) :
    (Reception.readByte.run s).Throughout fun _ t => AtRate m t := by
  have hupholds : Upholds (fun _ t => AtRate m t) Reception.readByte [] s fun _ _ => Unsynced s :=
    .of_shows (Reception.shows_readByte unsynced_moves) fun _ _ h hs => h.unsynced hs
  exact hupholds.throughout h

/-- What a sync that succeeds leaves. -/
theorem sync_atRate {s' : Session σ} {effects : List (Effect (Session σ) Annotation)}
    (hr : Reception.sync.run s = ⟨.ok (), s', effects⟩) (hrange : InRange m s.decoder) :
    InRange m s'.decoder ∧ AtRate m s' := by
  obtain ⟨halong, hends⟩ := Reception.sync_ranges [] s hrange
  unfold Script.Ends at hends
  rw [hr] at halong hends
  exact ⟨halong.last, hends, halong.last.period⟩

/-- A run that follows a grammar and begins at a rate reads every byte at one. -/
theorem Follows.bytewise {β : Type} {Q : α → β → Session σ → Prop} {g : Grammar β}
    {t : Trace (Session σ) Annotation Interrupt α} (h : Follows Q g s t)
    (hrange : InRange m s.decoder) (hrate : AtRate m s) : Bytewise (AtRate m) s t := by
  induction h with
  | done h => exact .done _ _
  | refuse e s => exact .done _ s
  | say x hx hrow h ih => exact .say x (ih hrange hrate)
  | note event h ih => exact .note event (ih hrange hrate)
  | aside hs h ih =>
    exact .aside hs (ih (hrange.unsynced hs.unsynced) (hrate.unsynced hs.unsynced))
  | @byte k s s' b effects t hr h ih =>
    have hsame := (Reception.shows_readByte unsynced_moves).state s
    rw [hr] at hsame
    exact .byte hr hrate (readByte_atRate hrate) (ih (hrange.unsynced hsame) (hrate.unsynced hsame))
  | @noByte s s' e effects k hr =>
    simpa [Trace.after] using Bytewise.byte hr hrate (readByte_atRate hrate)
      (.done (.error e : Except Interrupt α) s')
  | resync hr h ih =>
    obtain ⟨hrange', hrate'⟩ := sync_atRate hr hrange
    exact .sync hr (ih hrange' hrate')
  | @noResync s s' e effects k hr =>
    simpa [Trace.after] using Bytewise.sync (I := AtRate m) hr
      (.done (.error (.halt e) : Except Interrupt α) s')

/-- **A command reads every byte at a period in range.** -/
theorem command_bytewise (hrange : InRange m s.decoder) :
    Bytewise (AtRate m) s ((Reception.command : Reception σ Halt Unit).run s) := by
  rcases hr : (Reception.sync : Reception σ Halt Unit).run s with ⟨e | ⟨⟩, s', effects⟩
  · have hrun : (Reception.command : Reception σ Halt Unit).run s = ⟨.error e, s', effects⟩ :=
      Script.run_bind_error hr
    rw [hrun]
    simpa [Trace.after] using Bytewise.sync (I := AtRate m) hr
      (.done (.error e : Except Halt Unit) s')
  · obtain ⟨hrange', hrate'⟩ := sync_atRate hr hrange
    rw [run_command hr]
    exact .sync hr (((follows_afterSync s').bytewise hrange' hrate').withResult _)

theorem lasting_inRange (m : Nat) : Lasting fun _ d => InRange m d where
  closed h := h
  command _ _ hrange := ⟨(command_bytewise hrange).inRange hrange,
    .always (fun _ _ _ => trivial) fun _ _ _ => trivial⟩

end Bytes

/-! ## The life of a decoder -/

/-- What can become of a decoder between two lines: a call, or another sample rate. -/
inductive Use where
  | call (c : Call)
  | samplerate (hz : Nat)

def Decoder.use (d : Decoder) : Use → Decoder
  | .call c => (d.call c).state
  | .samplerate hz => d.withSamplerate hz

theorem InRange.use {m : Nat} {d : Decoder} (h : InRange m d) (u : Use) : InRange m (d.use u) := by
  cases u with
  | call c => exact @Lasting.call _ [] d (lasting_inRange m) h c
  | samplerate hz => exact ⟨h.config, h.period, h.syncs⟩

theorem InRange.uses {m : Nat} {d : Decoder} (h : InRange m d) (us : List Use) :
    InRange m (us.foldl Decoder.use d) := by
  induction us generalizing d with
  | nil => exact h
  | cons u us ih => exact ih (h.use u)

/-- **The period stays in range.**  Whatever a decoder has been used for, on whatever lines and with
whatever sinks, it has no period or one between one and the longest credible bit time.  So it is all
along its next command, which reads every byte at such a period; its sync, if there is one, leaves
such a period, and if the longest credible bit time is zero there is none. -/
theorem period_in_range (name : String) (config : Config) (us : List Use) :
    let m := config.maxBitTime
    let d := us.foldl Decoder.use { name, config }
    (d.bitTime = 0 ∨ 1 ≤ d.bitTime ∧ d.bitTime ≤ m) ∧ (m = 0 → d.stats.syncs = 0) ∧
      ∀ (σ : Type) [Source σ Sample] (line : σ),
        let s : Session σ := { decoder := d, source := line }
        let run := (Reception.command : Reception σ Halt Unit).run s
        let synced := (Reception.sync : Reception σ Halt Unit).run s
        run.Throughout (fun _ t => t.decoder.bitTime = 0 ∨
            1 ≤ t.decoder.bitTime ∧ t.decoder.bitTime ≤ m) ∧
          Bytewise (fun t => 1 ≤ t.decoder.bitTime ∧ t.decoder.bitTime ≤ m) s run ∧
          (synced.result = .ok () →
            1 ≤ synced.state.decoder.bitTime ∧ synced.state.decoder.bitTime ≤ m) ∧
          (m = 0 → synced.result ≠ .ok ()) := by
  intro m d
  have hfresh : InRange m ({ name, config } : Decoder) := ⟨rfl, Nat.zero_le _, fun _ => rfl⟩
  have hrange : InRange m d := hfresh.uses us
  have hperiod : ∀ d : Decoder, InRange m d → d.bitTime = 0 ∨ 1 ≤ d.bitTime ∧ d.bitTime ≤ m := by
    intro d h
    have := h.period
    omega
  refine ⟨hperiod d hrange, hrange.syncs, fun σ _ line => ?_⟩
  intro s run synced
  have hbytes : Bytewise (AtRate m) s run := command_bytewise hrange
  have hsynced : synced.result = .ok () → AtRate m synced.state := by
    intro hok
    have hr : synced = ⟨.ok (), synced.state, synced.effects⟩ := by rw [← hok]
    exact (sync_atRate hr hrange).2
  refine ⟨(hbytes.inRange hrange).mono fun _ t ht => hperiod _ ht, hbytes, hsynced,
    fun hzero hok => ?_⟩
  obtain ⟨hpos, hle⟩ := hsynced hok
  omega

end Updi

end BusDecode
