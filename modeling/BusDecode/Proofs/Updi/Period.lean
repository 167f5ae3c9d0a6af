import BusDecode.Proofs.Updi.Keeping
import BusDecode.Proofs.Updi.Reception

/-!
# When the bit period changes

An attempt at a sync writes the period before it looks at the stop bit.  So a new period belongs to
an attempt that measured a whole sync byte, whether it then succeeded or was abandoned; nothing else
changes the period, and no attempt fails between writing it and being counted.  Hence the period of
a decoder stands as long as neither count of attempts rises (`period_stands`).
-/

set_option autoImplicit false

namespace BusDecode

namespace Updi

open Script (Answers Ends Keeps)

/-! ## Changes of the period -/

/-- What goes on without any attempt at a sync coming to an end. -/
structure Still {σ : Type} (s s' : Session σ) : Prop where
  bitTime : s'.decoder.bitTime = s.decoder.bitTime
  syncs : s'.decoder.stats.syncs = s.decoder.stats.syncs
  abandoned : s'.decoder.stats.syncAbandoned = s.decoder.stats.syncAbandoned
  begun : s.decoder.cursor.primed = true → s'.decoder.cursor.primed = true

/-- What decoding does to the period: it changes only while a count of attempts rises, and it is
missing only if there was none before and no attempt has succeeded since. -/
structure Paced (d d' : Decoder) : Prop where
  syncs : d.stats.syncs ≤ d'.stats.syncs
  abandoned : d.stats.syncAbandoned ≤ d'.stats.syncAbandoned
  stands : d'.stats.syncs = d.stats.syncs → d'.stats.syncAbandoned = d.stats.syncAbandoned →
    d'.bitTime = d.bitTime
  missing : d'.bitTime = 0 → d.bitTime = 0 ∧ d'.stats.syncs = d.stats.syncs

instance {σ : Type} : Std.Refl (Still : Session σ → Session σ → Prop) :=
  ⟨fun _ => ⟨rfl, rfl, rfl, id⟩⟩

instance {σ : Type} : Trans (Still : Session σ → Session σ → Prop) Still Still :=
  ⟨fun h h' => ⟨h'.bitTime.trans h.bitTime, h'.syncs.trans h.syncs,
    h'.abandoned.trans h.abandoned, fun hbegun => h'.begun (h.begun hbegun)⟩⟩

instance : Std.Refl Paced :=
  ⟨fun _ => ⟨Nat.le_refl _, Nat.le_refl _, fun _ _ => rfl, fun h => ⟨h, rfl⟩⟩⟩

theorem Paced.trans {d d' d'' : Decoder} (h : Paced d d') (h' : Paced d' d'') : Paced d d'' where
  syncs := Nat.le_trans h.syncs h'.syncs
  abandoned := Nat.le_trans h.abandoned h'.abandoned
  stands hsyncs habandoned := by
    -- equal counts at both ends leave no room for a change in between
    have := h.syncs
    have := h'.syncs
    have := h.abandoned
    have := h'.abandoned
    rw [h'.stands (by omega) (by omega), h.stands (by omega) (by omega)]
  missing hzero := by
    obtain ⟨hzero', hsyncs'⟩ := h'.missing hzero
    obtain ⟨hzero, hsyncs⟩ := h.missing hzero'
    exact ⟨hzero, hsyncs'.trans hsyncs⟩

instance : Trans Paced Paced Paced :=
  ⟨Paced.trans⟩

theorem Still.paced {σ : Type} {s s' : Session σ} (h : Still s s') :
    Paced s.decoder s'.decoder where
  syncs := Nat.le_of_eq h.syncs.symm
  abandoned := Nat.le_of_eq h.abandoned.symm
  stands _ _ := h.bitTime
  missing hzero := ⟨h.bitTime.symm.trans hzero, h.syncs⟩

section Moves

variable {σ : Type} [Source σ Sample]

theorem still_moves : KeptByMoves (Still : Session σ → Session σ → Prop) where
  wait edge budget s := ⟨rfl, rfl, rfl, fun h => LineCursor.primed_waitEdge h edge budget⟩
  skip count s := ⟨rfl, rfl, rfl, fun h => LineCursor.primed_skip h count⟩
  aside s s' h := by
    obtain ⟨_, n, hd⟩ := h
    exact ⟨by rw [hd], by rw [hd], by rw [hd], by rw [hd]; exact id⟩
  frameError s := ⟨rfl, rfl, rfl, id⟩

theorem paced_moves :
    KeptByMoves (InvImage Paced Session.decoder : Session σ → Session σ → Prop) where
  wait edge budget s := (still_moves.wait edge budget s).paced
  skip count s := (still_moves.skip count s).paced
  aside s s' h := (still_moves.aside s s' h).paced
  frameError s := (still_moves.frameError s).paced

end Moves

section Attempts

variable {accepted : Bool} {s s' : Session (List Sample)}

/-- What becomes of the period in an attempt that comes to an end, after which so many more syncs
have been counted. -/
structure Tried (accepted : Bool) (more : Nat) (s s' : Session (List Sample)) : Prop where
  syncs : s'.decoder.stats.syncs = s.decoder.stats.syncs + more
  abandoned : s'.decoder.stats.syncAbandoned = s.decoder.stats.syncAbandoned
  bitTime : s'.decoder.bitTime = s.decoder.bitTime ∧ accepted = false ∨ s'.decoder.bitTime ≠ 0

theorem Still.tried (h : Still s s') : Tried false 0 s s' :=
  ⟨h.syncs, h.abandoned, .inl ⟨h.bitTime, rfl⟩⟩

theorem Still.trans_tried {more : Nat} {s₀ : Session (List Sample)} (h : Still s₀ s)
    (h' : Tried accepted more s s') : Tried accepted more s₀ s' := by
  refine ⟨?_, h'.abandoned.trans h.abandoned, ?_⟩
  · rw [h'.syncs, h.syncs]
  · rw [← h.bitTime]
    exact h'.bitTime

theorem Tried.success (h : Tried true 1 s s') : Paced s.decoder s'.decoder where
  syncs := by
    rw [h.syncs]
    exact Nat.le_succ _
  abandoned := Nat.le_of_eq h.abandoned.symm
  stands hsyncs _ := by
    rw [h.syncs] at hsyncs
    exact absurd hsyncs (Nat.succ_ne_self _)
  missing hzero := by
    rcases h.bitTime with ⟨_, hfalse⟩ | hne
    · cases hfalse
    · exact absurd hzero hne

theorem Tried.failure (h : Tried false 0 s s') :
    Paced s.decoder
      (s'.count fun c => { c with syncAbandoned := c.syncAbandoned + 1 }).decoder where
  syncs := Nat.le_of_eq h.syncs.symm
  abandoned := by
    change _ ≤ s'.decoder.stats.syncAbandoned + 1
    rw [h.abandoned]
    exact Nat.le_succ _
  stands _ habandoned := by
    change s'.decoder.stats.syncAbandoned + 1 = _ at habandoned
    rw [h.abandoned] at habandoned
    exact absurd habandoned (Nat.succ_ne_self _)
  missing hzero := by
    rcases h.bitTime with ⟨hsame, _⟩ | hne
    · exact ⟨hsame.symm.trans hzero, h.syncs⟩
    · exact absurd hzero hne

end Attempts

namespace Reception

variable {s : Session (List Sample)}

/-! ## Attempts -/

/-- Once a cursor has begun, skips along a line do not fail. -/
theorem answers_skip_begun (h : s.decoder.cursor.primed = true) (count : Nat) :
    Answers (skip count) s fun _ s' _ => Still s s' := by
  obtain ⟨b, hskip⟩ := LineCursor.skip_ok (s := s.source) h count
  refine answers_move (b := b) (Prod.ext hskip rfl) ?_
  exact still_moves.skip count s

theorem answers_dataBit_begun (h : s.decoder.cursor.primed = true) (label : Option String) :
    Answers (dataBit label) s fun _ s' _ => Still s s' := by
  unfold dataBit sampleBit
  refine .bind (.read (.bind (.bind (.read (.bind ((answers_skip_begun h _).mono ?_))))))
  rintro _ s₁ _ h₁
  refine .bind ((answers_skip_begun (h₁.begun h) _).mono ?_)
  rintro _ s₂ _ h₂
  exact .answer (.bind (.emit (.answer (Trans.trans h₁ h₂))))

theorem answers_stopBits_begun (h : s.decoder.cursor.primed = true) :
    Answers stopBits s fun _ s' _ => Still s s' := by
  unfold stopBits
  refine .bind (.read (.bind (.read (.bind ((answers_skip_begun h _).mono ?_)))))
  rintro _ s₁ _ h₁
  have hframe : Still s { s₁ with frameEnd := s.now + 2 * s.decoder.bitTime } :=
    ⟨h₁.bitTime, h₁.syncs, h₁.abandoned, h₁.begun⟩
  exact .bind (.modify (.bind (.ite (fun _ => .emit (.answer hframe)) fun _ =>
    .emit (.answer hframe))))

theorem answers_finishSync_begun (h : s.decoder.cursor.primed = true) (start : Nat) :
    Answers (finishSync start) s fun _ s' _ => Still s s' := by
  unfold finishSync
  refine .bind ((answers_dataBit_begun h _).mono ?_)
  rintro _ s₁ _ h₁
  refine .bind ((answers_stopBits_begun (h₁.begun h)).mono ?_)
  rintro _ s₂ _ h₂
  have hstill : Still s s₂ := Trans.trans h₁ h₂
  exact .ite (fun _ => .bind (.emit (.bind (.emit (.answer hstill))))) fun _ =>
    .bind (.note (.answer hstill))

theorem adoptPeriod_tries (h : s.decoder.cursor.primed = true) (start intervals : Nat) :
    Ends (adoptPeriod start intervals) s (fun accepted s' _ => Tried accepted 0 s s')
      fun _ s' _ => Still s s' := by
  unfold adoptPeriod
  refine .bind (.read (.ite (fun _ => .fail (Std.Refl.refl s)) fun _ => ?_))
  generalize (s.now - start + intervals / 2) / intervals = period
  refine .ite (fun _ => .answer (Still.tried (Std.Refl.refl s))) fun hperiod => .bind (.modify ?_)
  -- the period is written, and from here on nothing fails
  refine (answers_finishSync_begun (s := { s with decoder.bitTime := period }) h start).imp ?_
    fun _ _ _ hfalse => hfalse.elim
  rintro accepted s' _ h'
  refine ⟨h'.syncs, h'.abandoned, .inr ?_⟩
  rw [h'.bitTime]
  exact hperiod

theorem measureSync_tries (h : s.decoder.cursor.primed = true) (start : Nat) :
    Ends (measureSync start) s (fun accepted s' _ => Tried accepted 0 s s') fun _ s' _ =>
      Still s s' := by
  unfold measureSync
  refine .bind (.read (.bind (((still_moves.wait _ _).ends s).imp ?_ fun _ _ _ h => h)))
  rintro _ s₁ _ h₁
  refine .bind (.read (.ite (fun _ => .bind (.note (.answer h₁.tried))) fun _ => ?_))
  refine .bind (.emit (.bind (((shows_measureBits still_moves _ _).ends s₁).imp ?_ ?_)))
  · rintro credible s₂ _ ⟨h₂, -⟩
    have hstill : Still s s₂ := Trans.trans h₁ h₂
    refine .ite (fun _ => ?_) fun _ => .answer hstill.tried
    refine (adoptPeriod_tries (hstill.begun h) _ _).imp ?_ fun _ _ _ h₃ => Trans.trans hstill h₃
    exact fun accepted s₃ _ h₃ => hstill.trans_tried h₃
  · rintro _ s₂ _ ⟨h₂, -⟩
    exact Trans.trans h₁ h₂

theorem fall_begins :
    Ends (waitEdge .falling none) s
      (fun _ s' _ => Still s s' ∧ s'.decoder.cursor.primed = true) fun _ s' _ => Still s s' := by
  have hstill := still_moves.wait .falling none s
  unfold Ends
  rcases hwait : LineCursor.waitEdge .falling none s.decoder.cursor s.source with ⟨e | b, c, rest⟩
  · rw [waitEdge, run_move hwait] at hstill ⊢
    exact hstill
  · rw [waitEdge, run_move hwait] at hstill ⊢
    have hbegun := LineCursor.primed_of_waitEdge (b := b) (congrArg Prod.fst hwait)
    rw [hwait] at hbegun
    exact ⟨hstill, hbegun⟩

theorem trySync_tries :
    Ends trySync s (fun accepted s' _ => Tried accepted (if accepted then 1 else 0) s s')
      fun _ s' _ => Still s s' := by
  unfold trySync
  refine .bind (fall_begins.imp ?_ fun _ _ _ h => h)
  rintro _ s₁ _ ⟨h₁, hbegun⟩
  refine .bind (.read (.bind (.modify (.bind (.withhold ?_)))))
  have hframe : Still s { s₁ with frameEnd := s₁.now } :=
    ⟨h₁.bitTime, h₁.syncs, h₁.abandoned, h₁.begun⟩
  refine (measureSync_tries (s := { s₁ with frameEnd := s₁.now }) hbegun _).imp ?_ ?_
  · rintro accepted s₂ _ h₂
    have h₂ := hframe.trans_tried h₂
    cases accepted with
    | true =>
      refine .ite (fun _ => ?_) (by simp)
      refine .bind (.modify (.bind (.modify (.bind (.note (.answer ?_))))))
      exact ⟨congrArg (· + 1) h₂.syncs, h₂.abandoned, h₂.bitTime⟩
    | false => exact .ite (by simp) fun _ => .answer h₂
  · exact fun _ s₂ _ h₂ => Trans.trans hframe h₂

/-- An attempt that is over has been counted; until then nothing has changed but the cursor. -/
theorem paced_attemptSync :
    Keeps (InvImage Paced Session.decoder)
      (attemptSync : Reception (List Sample) Halt (Option Unit)) := by
  refine .of_ends fun s => ?_
  unfold attemptSync
  refine .bind (trySync_tries.imp ?_ fun _ _ _ h => h.paced)
  rintro accepted s₁ _ h₁
  cases accepted with
  | true => exact .ite (fun _ => .answer h₁.success) (by simp)
  | false => exact .ite (by simp) fun _ => .bind (.modify (.answer h₁.failure))

end Reception

/-! ## Calls -/

/-- Calls on a decoder, one after the other, each on a line of its own and with all it hands on
taken. -/
inductive Calls (d : Decoder) : Decoder → Prop
  | none : Calls d d
  | step {d' : Decoder} (source : List Sample) (h : Calls d d') :
      Calls d ((Decoder.step.run ⟨d', source⟩).play (#[] : Array Annotation)).state.decoder
  | decode {d' : Decoder} (source : List Sample) (h : Calls d d') :
      Calls d (d'.decode source (#[] : Array Annotation)).state.decoder

theorem paced_step : Keeps (InvImage Paced Decoder.OnLine.decoder)
    (Decoder.step : Script (Decoder.OnLine (List Sample)) Annotation Halt Unit) :=
  keeps_step (keeps_command paced_moves Reception.paced_attemptSync)

theorem Calls.paced {d d' : Decoder} (h : Calls d d') : Paced d d' := by
  induction h with
  | none => exact Std.Refl.refl d
  | step source h ih => exact ih.trans (step_keeps paced_step _ source)
  | decode source h ih => exact ih.trans (decode_keeps paced_step _ source)

/-- **The period stands** from one state to a later one unless an attempt at a sync has come to an
end in between, successful or abandoned; and once an attempt has succeeded there is a period. -/
theorem period_stands {d d' : Decoder} (h : Calls d d') :
    (d'.stats.syncs = d.stats.syncs → d'.stats.syncAbandoned = d.stats.syncAbandoned →
      d'.samplesPerBit = d.samplesPerBit) ∧
    (d'.samplesPerBit = none → d.samplesPerBit = none ∧ d'.stats.syncs = d.stats.syncs) := by
  have hpaced := h.paced
  have hnone : ∀ d : Decoder, d.samplesPerBit = none ↔ d.bitTime = 0 := by
    intro d
    unfold Decoder.samplesPerBit
    split <;> simp_all
  refine ⟨fun hsyncs habandoned => ?_, fun hzero => ?_⟩
  · rw [Decoder.samplesPerBit, Decoder.samplesPerBit, hpaced.stands hsyncs habandoned]
  · rw [hnone] at hzero ⊢
    exact hpaced.missing hzero

/-- A line that is low once and then idle leaves the period of the line before. -/
theorem period_stands_idle :
    let d : Decoder := { config := { samplerate := some 1000000 }, bitTime := 17, stats.syncs := 1 }
    let d' := (d.decode [⟨0, true⟩, ⟨5, false⟩, ⟨9, true⟩] (#[] : Array Annotation)).state.decoder
    Calls d d' ∧ d'.stats.syncs = d.stats.syncs ∧
      d'.stats.syncAbandoned = d.stats.syncAbandoned ∧ d'.samplesPerBit = d.samplesPerBit := by
  intro d d'
  have hcalls : Calls d d' := .decode _ .none
  have hsyncs : d'.stats.syncs = d.stats.syncs := by decide +kernel
  have habandoned : d'.stats.syncAbandoned = d.stats.syncAbandoned := by decide +kernel
  exact ⟨hcalls, hsyncs, habandoned, (period_stands hcalls).1 hsyncs habandoned⟩

/-- A sync byte that lacks its stop bit leaves its period behind, although no sync has succeeded. -/
theorem period_without_sync :
    let d : Decoder := { config := { samplerate := some 1000000, maxBitTime := 10 } }
    let line : List Sample := [⟨0, true⟩, ⟨10, false⟩, ⟨12, true⟩, ⟨14, false⟩, ⟨16, true⟩,
      ⟨18, false⟩, ⟨20, true⟩, ⟨22, false⟩, ⟨24, true⟩, ⟨26, false⟩]
    let d' := (d.decode line (#[] : Array Annotation)).state.decoder
    Calls d d' ∧ d'.stats.syncs = 0 ∧ d.stats.syncs = 0 ∧ d.samplesPerBit = none ∧
      d'.samplesPerBit = some 2 := by
  intro d line d'
  have hcalls : Calls d d' := .decode line .none
  have hsyncs : d'.stats.syncs = 0 := by decide +kernel
  have hperiod : d'.samplesPerBit = some 2 := by decide +kernel
  exact ⟨hcalls, hsyncs, rfl, rfl, hperiod⟩

end Updi

end BusDecode
