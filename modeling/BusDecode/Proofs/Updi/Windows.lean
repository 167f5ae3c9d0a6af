import BusDecode.Proofs.Updi.Order
import Mathlib.Data.List.DropRight

/-!
# What has been received since the last command

The bytes, opcode, address, data and acknowledgements since the last command or sync are what the
next command is decoded from (`window`).  Along the way nothing is taken from them (`Past`), a byte
adds itself behind what was there before (`Reception.readByte_past`), and a sync leaves none of
them (`Reception.sync_opens`).
-/

set_option autoImplicit false

namespace BusDecode

namespace Updi

/-! ## Windows -/

/-- The rows of commands and syncs. -/
def markRows : List String :=
  ["updi", "sync"]

/-- The rows that a command is decoded from. -/
def sourceRows : List String :=
  ["updi-opcode", "updi-addr", "updi-data", "updi-ack", "byte-value"]

/-- What commands are decoded from, as far as it has come since the last command or sync. -/
def window (xs : List Annotation) : List Annotation :=
  (xs.rtakeWhile fun a => a.row ∉ markRows).filter fun a => a.row ∈ sourceRows

/-- The row of the last command or sync. -/
def lastMark (xs : List Annotation) : Option String :=
  ((xs.map Annotation.row).filter fun row => row ∈ markRows).getLast?

/-- The command is an LDS or STS, written in full. -/
def Addressed (a : Annotation) : Prop :=
  a.Begins "LDS " ∨ a.Begins "STS "

instance (a : Annotation) : Decidable (Addressed a) :=
  inferInstanceAs (Decidable (_ ∨ _))

/-- A further round of an LDS or STS: there has been no sync since the last command. -/
def Further (before : List Annotation) (command : Annotation) : Prop :=
  lastMark before = some "updi" ∧ Addressed command

instance (before : List Annotation) (command : Annotation) : Decidable (Further before command) :=
  inferInstanceAs (Decidable (_ ∧ _))

/-- How far a command reaches over the annotations before it. -/
structure Covers (before : List Annotation) (command : Annotation) : Prop where
  stop : ∀ a ∈ window before, a.stop ≤ command.stop
  start : ¬Further before command → ∀ a ∈ window before, command.start ≤ a.start
  further : Further before command →
    (∃ a ∈ window before, a.row = "updi-addr" ∧ a.start < command.start) ∧
      ∃ a ∈ window before, a.row = "updi-data" ∧ a.start = command.start

/-- Every command reaches as far as it should. -/
def Covering (xs : List Annotation) : Prop :=
  ∀ before command after, xs = before ++ command :: after → command.row = "updi" →
    Covers before command

section Windows

variable {xs ys : List Annotation} {a : Annotation}

theorem window_mark (h : a.row ∈ markRows) : window (xs ++ [a]) = [] := by
  rw [window, List.rtakeWhile_concat_neg _ _ _ (by simpa using h)]
  rfl

theorem window_source (h : a.row ∈ sourceRows) : window (xs ++ [a]) = window xs ++ [a] := by
  have hmark : ∀ row ∈ sourceRows, row ∉ markRows := by decide
  rw [window, List.rtakeWhile_concat_pos _ _ _ (by simpa using hmark _ h), List.filter_append,
    List.filter_cons_of_pos (by simpa using h)]
  rfl

theorem window_other (h : a.row ∉ markRows) (h' : a.row ∉ sourceRows) :
    window (xs ++ [a]) = window xs := by
  rw [window, List.rtakeWhile_concat_pos _ _ _ (by simpa using h), List.filter_append,
    List.filter_cons_of_neg (by simpa using h'), List.filter_nil, List.append_nil, window]

theorem lastMark_mark (h : a.row ∈ markRows) : lastMark (xs ++ [a]) = some a.row := by
  simp [lastMark, h]

theorem lastMark_other (h : a.row ∉ markRows) : lastMark (xs ++ [a]) = lastMark xs := by
  simp [lastMark, h]

theorem covering_nil : Covering [] :=
  fun _ _ _ h => absurd h (by simp)

theorem Covering.of_append (h : Covering (xs ++ ys)) : Covering xs := by
  rintro before command after rfl hrow
  exact h before command (after ++ ys) (by simp) hrow

theorem Covering.put (h : Covering xs) (ha : a.row = "updi" → Covers xs a) :
    Covering (xs ++ [a]) := by
  intro before command after hsplit hrow
  rcases List.eq_nil_or_concat' after with rfl | ⟨after, b, rfl⟩
  · obtain ⟨rfl, hlast⟩ := List.append_inj' hsplit rfl
    cases hlast
    exact ha hrow
  · rw [← List.cons_append, ← List.append_assoc] at hsplit
    exact h before command after (List.append_inj' hsplit rfl).1 hrow

end Windows

/-! ## Moving ahead -/

/-- A decoder with what was handed on until then. -/
structure Tracked (xs : List Annotation) (d : Decoder) : Prop where
  placed : d.cursor.Placed
  covering : Covering xs

section Sessions

variable {σ : Type} {xs ys zs : List Annotation} {s t u : Session σ}

/-- From one moment to a later one at the same bit period. -/
structure Ahead (s t : Session σ) : Prop where
  now : s.now ≤ t.now
  period : t.decoder.bitTime = s.decoder.bitTime
  commandStart : t.commandStart = s.commandStart
  valueStart : t.valueStart = s.valueStart
  frame : t.frameEnd = s.frameEnd ∨
    ∃ place, s.now ≤ place ∧ place ≤ t.now ∧ t.frameEnd = place + 2 * s.decoder.bitTime

/-- The last frame ends no later than one that would begin now. -/
structure Timely (s : Session σ) : Prop where
  period : 0 < s.decoder.bitTime
  frame : s.frameEnd ≤ s.now + 2 * s.decoder.bitTime

/-- Nothing that counts for a window was handed on. -/
structure Unseen (xs ys : List Annotation) : Prop where
  window : window ys = window xs
  mark : lastMark ys = lastMark xs

theorem Ahead.refl (s : Session σ) : Ahead s s :=
  ⟨Nat.le_refl _, rfl, rfl, rfl, .inl rfl⟩

theorem Ahead.trans (h : Ahead s t) (h' : Ahead t u) : Ahead s u where
  now := Nat.le_trans h.now h'.now
  period := h'.period.trans h.period
  commandStart := h'.commandStart.trans h.commandStart
  valueStart := h'.valueStart.trans h.valueStart
  frame := by
    rcases h'.frame with hsame | ⟨place, hfrom, hto, hframe⟩
    · rw [hsame]
      exact h.frame.imp_right fun ⟨place, hfrom, hto, hframe⟩ =>
        ⟨place, hfrom, Nat.le_trans hto h'.now, hframe⟩
    · rw [h.period] at hframe
      exact .inr ⟨place, Nat.le_trans h.now hfrom, hto, hframe⟩

theorem Timely.ahead (h : Timely s) (h' : Ahead s t) : Timely t where
  period := h'.period ▸ h.period
  frame := by
    have hnow := h'.now
    have hframe := h.frame
    rw [h'.period]
    rcases h'.frame with hsame | ⟨place, -, hto, hplace⟩ <;> omega

/-- The end of what was received never goes back. -/
theorem Ahead.stop (h : Ahead s t) (hs : Timely s) : s.stop ≤ t.stop := by
  have hnow := h.now
  have hframe := hs.frame
  unfold Session.stop
  rcases h.frame with hsame | ⟨place, hfrom, -, hplace⟩ <;> omega

theorem Unseen.refl (xs : List Annotation) : Unseen xs xs :=
  ⟨rfl, rfl⟩

theorem Unseen.trans (h : Unseen xs ys) (h' : Unseen ys zs) : Unseen xs zs :=
  ⟨h'.window.trans h.window, h'.mark.trans h.mark⟩

theorem Unseen.put {a : Annotation} (h : Unseen xs ys) (hrow : a.row ∉ markRows ++ sourceRows) :
    Unseen xs (ys ++ [a]) := by
  rw [List.mem_append, not_or] at hrow
  exact h.trans ⟨window_other hrow.1 hrow.2, lastMark_other hrow.1⟩

/-- From one moment to a later one, with what was added to the window since behind a place. -/
structure Past (place : Nat) (xs : List Annotation) (s : Session σ) (ys : List Annotation)
    (t : Session σ) : Prop where
  timely : Timely t
  now : s.now ≤ t.now
  stop : s.stop ≤ t.stop
  commandStart : t.commandStart = s.commandStart
  mark : lastMark ys = lastMark xs
  kept : ∀ a ∈ window xs, a ∈ window ys
  added : ∀ a ∈ window ys, a ∈ window xs ∨ place ≤ a.start ∧ a.stop ≤ t.stop

namespace Past

variable {place place' : Nat} {a : Annotation}

theorem of_ahead (hs : Timely s) (h : Ahead s t) (hseen : Unseen xs ys) : Past place xs s ys t where
  timely := hs.ahead h
  now := h.now
  stop := h.stop hs
  commandStart := h.commandStart
  mark := hseen.mark
  kept _ ha := hseen.window.symm ▸ ha
  added _ ha := .inl (hseen.window ▸ ha)

theorem trans (h : Past place xs s ys t) (h' : Past place' ys t zs u) (hplace : place ≤ place') :
    Past place xs s zs u where
  timely := h'.timely
  now := Nat.le_trans h.now h'.now
  stop := Nat.le_trans h.stop h'.stop
  commandStart := h'.commandStart.trans h.commandStart
  mark := h'.mark.trans h.mark
  kept a ha := h'.kept a (h.kept a ha)
  added a ha := by
    rcases h'.added a ha with hmem | ⟨hstart, hstop⟩
    · exact (h.added a hmem).imp_right fun ⟨hstart, hstop⟩ =>
        ⟨hstart, Nat.le_trans hstop h'.stop⟩
    · exact .inr ⟨Nat.le_trans hplace hstart, hstop⟩

/-- Where the last byte and the last value began makes no difference. -/
theorem aside (h : Past place xs s ys t) (byteStart valueStart : Nat) :
    Past place xs s ys { t with byteStart, valueStart } :=
  ⟨⟨h.timely.period, h.timely.frame⟩, h.now, h.stop, h.commandStart, h.mark, h.kept, h.added⟩

/-- What starts at the place itself is added. -/
theorem put (h : Past place xs s ys t) (hrow : a.row ∈ sourceRows) (hstart : a.start = place)
    (hstop : a.stop = t.stop) : Past place xs s (ys ++ [a]) t := by
  have hmark : ∀ row ∈ sourceRows, row ∉ markRows := by decide
  refine { h with mark := ?_, kept := ?_, added := ?_ }
  · rw [lastMark_other (hmark _ hrow), h.mark]
  · rw [window_source hrow]
    exact fun b hb => List.mem_append_left _ (h.kept b hb)
  · rw [window_source hrow]
    refine List.forall_mem_append.2 ⟨h.added, ?_⟩
    simp [hstart, hstop]

/-- What is not received, like a warning, is not added. -/
theorem aside_put (h : Past place xs s ys t) (hrow : a.row ∉ markRows ++ sourceRows) :
    Past place xs s (ys ++ [a]) t := by
  have hseen := (Unseen.refl ys).put hrow
  refine { h with mark := hseen.mark.trans h.mark, kept := ?_, added := ?_ } <;>
    rw [hseen.window]
  · exact h.kept
  · exact h.added

end Past

/-- A sync has been received and nothing since, at a period that is not zero. -/
structure Opened (start : Nat) (xs : List Annotation) (s : Session σ) : Prop where
  timely : Timely s
  passed : start ≤ s.now
  mark : lastMark xs = some "sync"
  empty : window xs = []

end Sessions

namespace Reception

open Script (Upholds)

variable {σ ε : Type} {xs ys : List Annotation} {s : Session σ}

/-- What a part of a command upholds and leaves behind. -/
abbrev Tracks {α : Type} (m : Reception σ ε α) (xs : List Annotation) (s : Session σ)
    (Q : α → List Annotation → Session σ → Prop) : Prop :=
  Upholds (fun xs s => Tracked xs s.decoder) m xs s Q

/-- Anything but a command can be handed on. -/
theorem tracks_emit (row : String) {f : Session σ → Annotation}
    {Q : Unit → List Annotation → Session σ → Prop} (hf : (f s).row = row) (hrow : row ≠ "updi")
    (hQ : Q () (xs ++ [f s]) s) : Tracks (Script.emit f : Reception σ ε Unit) xs s Q :=
  .emit (fun h => ⟨h.placed, h.covering.put fun hupdi => absurd (hf.symm.trans hupdi) hrow⟩) hQ

variable [Source σ Sample]

theorem move_ahead {step : LineCursor → σ → Except Halt Bool × LineCursor × σ}
    (h : ∀ (c : LineCursor) line, c.Placed → c.Onward (step c line).2.1) (xs : List Annotation)
    (s : Session σ) :
    Tracks (move step) xs s fun _ ys t => Ahead s t ∧ ys = xs := by
  refine .assuming fun hs => ?_
  have honward := h s.decoder.cursor s.source hs.placed
  exact .lift (fun hs => ⟨honward.placed, hs.covering⟩)
    fun _ _ => ⟨⟨honward.now, rfl, rfl, rfl, .inl rfl⟩, rfl⟩

theorem waitEdge_ahead (edge : Edge) (budget : Option Nat) (xs : List Annotation)
    (s : Session σ) :
    Tracks (waitEdge edge budget) xs s fun _ ys t => Ahead s t ∧ ys = xs :=
  move_ahead (fun _ line hc => LineCursor.onward_waitEdge hc edge budget line) xs s

/-- A skip that is answered has gone at least its number of samples. -/
theorem skip_ahead (count : Nat) (xs : List Annotation) (s : Session σ) :
    Tracks (skip count) xs s fun _ ys t => Ahead s t ∧ ys = xs ∧ s.now + count ≤ t.now := by
  refine .assuming fun hs => ?_
  have honward := LineCursor.onward_skip hs.placed count s.source
  unfold skip move
  exact .lift (fun hs => ⟨honward.placed, hs.covering⟩)
    fun _ hanswer => ⟨⟨honward.now, rfl, rfl, rfl, .inl rfl⟩, rfl,
      LineCursor.le_now_skip hs.placed hanswer⟩

theorem sampleBit_ahead (xs : List Annotation) (s : Session σ) :
    Tracks sampleBit xs s fun _ ys t => Ahead s t ∧ ys = xs := by
  unfold sampleBit
  refine .bind (.read (.bind ((skip_ahead _ xs s).mono ?_)))
  rintro _ _ t - ⟨h, rfl, -⟩
  refine .bind ((skip_ahead _ _ t).mono ?_)
  rintro _ _ u - ⟨h', rfl, -⟩
  exact .answer ⟨h.trans h', rfl⟩

theorem dataBit_ahead (label : Option String) (xs : List Annotation) (s : Session σ) :
    Tracks (dataBit label) xs s fun _ ys t => Ahead s t ∧ Unseen xs ys := by
  unfold dataBit
  refine .bind (.read (.bind ((sampleBit_ahead xs s).mono ?_)))
  rintro _ _ t - ⟨h, rfl⟩
  have hrow : "data-bit" ∉ markRows ++ sourceRows := by decide
  exact .bind (tracks_emit "data-bit" rfl (by decide) (.answer ⟨h, (Unseen.refl _).put hrow⟩))

theorem dataBits_ahead (n : Nat) (xs : List Annotation) (s : Session σ) :
    Tracks (dataBits n) xs s fun _ ys t => Ahead s t ∧ Unseen xs ys := by
  induction n generalizing xs s with
  | zero => exact .answer ⟨.refl s, .refl xs⟩
  | succ n ih =>
    refine .bind ((dataBit_ahead _ xs s).mono ?_)
    rintro _ ys t - ⟨h, hys⟩
    refine .bind ((ih ys t).mono ?_)
    rintro _ zs u - ⟨h', hzs⟩
    exact .answer ⟨h.trans h', hys.trans hzs⟩

theorem stopBits_ahead (xs : List Annotation) (s : Session σ) :
    Tracks stopBits xs s fun _ ys t => (Ahead s t ∧ Unseen xs ys) ∧
      t.frameEnd ≤ t.now + 2 * t.decoder.bitTime := by
  unfold stopBits
  refine .bind (.read (.bind (.read (.bind ((skip_ahead _ xs s).mono ?_)))))
  rintro level _ t - ⟨h, rfl, -⟩
  refine .bind (.modify (fun hP => hP) (.bind ?_))
  generalize hframe : ({ t with frameEnd := s.now + 2 * s.decoder.bitTime } : Session σ) = u
  have hu : Ahead s u := by
    subst hframe
    exact ⟨h.now, h.period, h.commandStart, h.valueStart, .inr ⟨s.now, Nat.le_refl _, h.now, rfl⟩⟩
  have hend : u.frameEnd ≤ u.now + 2 * u.decoder.bitTime := by
    subst hframe
    have := h.now
    have := h.period
    simp only [Session.now] at *
    omega
  have hstop : "stop-bit" ∉ markRows ++ sourceRows := by decide
  have hwarning : "warnings" ∉ markRows ++ sourceRows := by decide
  cases level with
  | true =>
    exact tracks_emit "stop-bit" rfl (by decide)
      (.answer ⟨⟨hu, (Unseen.refl _).put hstop⟩, hend⟩)
  | false =>
    exact tracks_emit "warnings" rfl (by decide)
      (.answer ⟨⟨hu, (Unseen.refl _).put hwarning⟩, hend⟩)

/-- A start bit takes a bit period from where it begins. -/
theorem startBit_ahead (xs : List Annotation) (s : Session σ) :
    Tracks startBit xs s fun start ys t => (Ahead s t ∧ Unseen xs ys) ∧
      s.now ≤ start ∧ start + s.decoder.bitTime ≤ t.now := by
  unfold startBit
  refine .bind (.mapError ((waitEdge_ahead _ _ xs s).mono ?_))
  rintro _ _ t - ⟨h, rfl⟩
  refine .bind (.read (.bind (.read (.bind (.mapError ((skip_ahead _ _ t).mono ?_))))))
  rintro high _ u - ⟨h', rfl, hmiddle⟩
  refine .ite (fun _ => .bind (.note (.bind (.modify (fun hP => ⟨hP.placed, hP.covering⟩) .fail))))
    fun _ => ?_
  refine .bind (.mapError ((skip_ahead _ _ u).mono ?_))
  rintro _ _ v - ⟨h'', rfl, hend⟩
  have hrow : "start-bit" ∉ markRows ++ sourceRows := by decide
  refine .bind (tracks_emit "start-bit" rfl (by decide) (.answer ?_))
  refine ⟨⟨(h.trans h').trans h'', (Unseen.refl _).put hrow⟩, h.now, ?_⟩
  have := h.period
  omega

/-- A byte adds itself to the window; it begins where it is, and ends behind that. -/
theorem readByte_past (h : Timely s) (xs : List Annotation) :
    Tracks readByte xs s fun _ ys t =>
      Past t.byteStart xs s ys t ∧ t.valueStart = s.valueStart ∧ s.now ≤ t.byteStart ∧
        t.byteStart < t.now := by
  unfold readByte
  refine .bind ((startBit_ahead xs s).mono ?_)
  rintro start ys t - ⟨⟨hahead, hunseen⟩, hfrom, hto⟩
  refine .bind (.mapError ((dataBits_ahead 8 ys t).mono ?_))
  rintro bits zs u - ⟨hahead', hunseen'⟩
  refine .bind (.mapError ((stopBits_ahead zs u).mono ?_))
  rintro stopped ws v - ⟨⟨hahead'', hunseen''⟩, -⟩
  refine .ite (fun _ => ?_)
    fun _ => .bind (.note (.bind (.modify (fun hP => ⟨hP.placed, hP.covering⟩) .fail)))
  have hall : Ahead s v := (hahead.trans hahead').trans hahead''
  have hpast : Past start xs s ws { v with byteStart := start } :=
    (Past.of_ahead h hall ((hunseen.trans hunseen').trans hunseen'')).aside start v.valueStart
  have hend : start < v.now := by
    have := h.period
    have := hahead'.now
    have := hahead''.now
    omega
  refine .bind (.modify (fun hP => hP) (.bind (.note (.bind ?_))))
  refine tracks_emit "byte-value" rfl (by decide) (.answer ?_)
  have hrow : "byte-value" ∈ sourceRows := by decide
  exact ⟨hpast.put hrow rfl rfl, hall.valueStart, hfrom, hend⟩

/-! ## Syncs -/

theorem measureBits_ahead (maxBitTime n : Nat) (xs : List Annotation) (s : Session σ) :
    Tracks (measureBits maxBitTime n) xs s fun _ _ t => s.now ≤ t.now := by
  induction n generalizing xs s with
  | zero => exact .answer (Nat.le_refl _)
  | succ n ih =>
    refine .bind (.read (.bind ((waitEdge_ahead _ _ xs s).mono ?_)))
    rintro _ _ t - ⟨h, rfl⟩
    refine .bind (.read (.ite (fun _ => .bind (.note (.answer h.now))) fun _ => ?_))
    refine .bind (tracks_emit "data-bit" rfl (by decide) ?_)
    exact (ih _ t).mono fun _ _ _ _ h' => Nat.le_trans h.now h'

theorem finishSync_opens {start : Nat} (hstart : start ≤ s.now) (hperiod : 0 < s.decoder.bitTime)
    (xs : List Annotation) :
    Tracks (finishSync start) xs s fun stopped ys t => stopped = true → Opened start ys t := by
  unfold finishSync
  refine .bind ((dataBit_ahead _ xs s).mono ?_)
  rintro _ ys t - ⟨h, -⟩
  refine .bind ((stopBits_ahead ys t).mono ?_)
  rintro stopped zs u - ⟨⟨h', -⟩, hframe⟩
  refine .ite (fun _ => ?_) fun _ => .bind (.note (.answer nofun))
  have hall : Ahead s u := h.trans h'
  refine .bind (tracks_emit "byte-value" rfl (by decide) ?_)
  refine .bind (tracks_emit "sync" rfl (by decide) (.answer fun _ => ?_))
  have hrow : "sync" ∈ markRows := by decide
  exact ⟨⟨hall.period ▸ hperiod, hframe⟩, Nat.le_trans hstart hall.now, lastMark_mark hrow,
    window_mark hrow⟩

theorem adoptPeriod_opens {start : Nat} (hstart : start ≤ s.now) (intervals : Nat)
    (xs : List Annotation) :
    Tracks (adoptPeriod start intervals) xs s fun stopped ys t =>
      stopped = true → Opened start ys t := by
  unfold adoptPeriod
  refine .bind (.read (.ite (fun _ => .fail) fun _ => ?_))
  refine .ite (fun _ => .answer nofun) fun hperiod => ?_
  refine .bind (.modify (fun hP => ⟨hP.placed, hP.covering⟩) ?_)
  -- the period just measured is the one that the stop bits are read at
  refine finishSync_opens ?_ ?_ xs
  · exact hstart
  · exact Nat.pos_of_ne_zero hperiod

theorem measureSync_opens {start : Nat} (hstart : start ≤ s.now) (xs : List Annotation) :
    Tracks (measureSync start) xs s fun accepted ys t =>
      accepted = true → Opened start ys t := by
  unfold measureSync
  refine .bind (.read (.bind ((waitEdge_ahead _ _ xs s).mono ?_)))
  rintro _ _ t - ⟨h, rfl⟩
  refine .bind (.read (.ite (fun _ => .bind (.note (.answer nofun))) fun _ => ?_))
  refine .bind (tracks_emit "start-bit" rfl (by decide) (.bind ?_))
  refine (measureBits_ahead _ _ _ t).mono ?_
  rintro credible ys u - h'
  refine .ite (fun _ => ?_) fun _ => .answer nofun
  exact adoptPeriod_opens (Nat.le_trans (Nat.le_trans hstart h.now) h') _ ys

theorem trySync_opens (xs : List Annotation) (s : Session σ) :
    Tracks trySync xs s fun accepted ys t =>
      accepted = true → Opened t.decoder.syncStart ys t := by
  unfold trySync
  refine .bind ((waitEdge_ahead _ _ xs s).mono ?_)
  rintro _ ys t - -
  refine .bind (.read (.bind (.modify (fun hP => hP) (.bind (.withhold ?_ ?_)))))
  · exact fun _ _ _ h => ⟨h.placed, h.covering.of_append⟩
  refine (measureSync_opens (s := { t with frameEnd := t.now }) (Nat.le_refl _) ys).mono ?_
  intro accepted zs u _ h
  refine .ite (fun haccepted => ?_) fun _ => .answer nofun
  subst haccepted
  have hopened : Opened t.now zs u := h rfl
  refine .bind (.modify (fun hP => ⟨hP.placed, hP.covering⟩) (.bind (.modify ?_ ?_)))
  · exact fun hP => ⟨hP.placed, hP.covering⟩
  · exact .bind (.note (.answer fun _ => ⟨⟨hopened.timely.period, hopened.timely.frame⟩,
      hopened.passed, hopened.mark, hopened.empty⟩))

theorem sync_opens (xs : List Annotation) (s : Session σ) :
    Tracks sync xs s fun _ ys t => Opened t.decoder.syncStart ys t := by
  refine .loop (fun ys t => ?_) xs s
  unfold attemptSync
  refine .bind ((trySync_opens ys t).mono ?_)
  intro accepted zs u _ h
  exact .ite (fun haccepted => .answer fun _ _ => h haccepted) fun _ =>
    .bind (.modify (fun hP => ⟨hP.placed, hP.covering⟩) (.answer nofun))

end Reception

end Updi

end BusDecode
