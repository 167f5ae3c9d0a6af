import BusDecode.Proofs.LineCursor
import BusDecode.Proofs.Rows
import BusDecode.Proofs.Upholding
import BusDecode.Updi.Sync

/-!
# The chronicle of a UPDI line

An annotation reaches from a place that the decoder has passed up to where it stands, or to where
the last frame nominally ends.  The place is remembered while other annotations are handed on, and
these are in other rows (`Marks`); so a row stays in order, and nothing in it starts behind the
cursor (`Chronicle`).  Here this is shown for bits, bytes and syncs, on any line.
-/

set_option autoImplicit false

namespace BusDecode

namespace Updi

open Annotation (Ascending ascending_append ascending_one)

/-! ## Chronicles -/

/-- Nothing in a row starts behind a place. -/
def Until (row : String) (place : Nat) (xs : List Annotation) : Prop :=
  ∀ a ∈ xs, a.row = row → a.start ≤ place

/-- What was handed on until a cursor is where it is: every row is in order, and nothing starts
behind the cursor. -/
structure Chronicle (xs : List Annotation) (c : LineCursor) : Prop where
  placed : c.Placed
  forward : ∀ a ∈ xs, a.start ≤ a.stop
  past : ∀ a ∈ xs, a.start ≤ c.now
  ordered : ∀ row, Ascending row xs

namespace Chronicle

variable {xs ys : List Annotation} {c c' : LineCursor}

theorem onward (h : Chronicle xs c) (hc : c.Onward c') : Chronicle xs c' :=
  ⟨hc.placed, h.forward, fun a ha => Nat.le_trans (h.past a ha) hc.now, h.ordered⟩

theorem of_append (h : Chronicle (xs ++ ys) c) : Chronicle xs c where
  placed := h.placed
  forward a ha := h.forward a (List.mem_append_left _ ha)
  past a ha := h.past a (List.mem_append_left _ ha)
  ordered row := (ascending_append.1 (h.ordered row)).1

/-- An annotation can be added if nothing in its row starts behind it. -/
theorem put {a : Annotation} (h : Chronicle xs c) (hforward : a.start ≤ a.stop)
    (hpast : a.start ≤ c.now) (hrow : Until a.row a.start xs) : Chronicle (xs ++ [a]) c where
  placed := h.placed
  forward := List.forall_mem_append.2 ⟨h.forward, by simpa using hforward⟩
  past := List.forall_mem_append.2 ⟨h.past, by simpa using hpast⟩
  ordered row := by
    refine ascending_append.2 ⟨h.ordered row, ascending_one a, ?_⟩
    intro b hb a' ha' hrowb hrowa
    obtain rfl := List.mem_singleton.1 ha'
    exact hrow b hb (hrowb.trans hrowa.symm)

end Chronicle

/-! ## Places -/

section Places

variable {σ : Type} {rows rows' : List String} {place : Nat} {xs ys zs : List Annotation}
  {s t u : Session σ}

/-- A session with what was handed on until then. -/
abbrev Recorded (xs : List Annotation) (s : Session σ) : Prop :=
  Chronicle xs s.decoder.cursor

/-- From one moment to a later one, with annotations in certain rows in between. -/
structure Passed (rows : List String) (xs : List Annotation) (s : Session σ) (ys : List Annotation)
    (t : Session σ) : Prop where
  added : ∀ a ∈ ys, a ∈ xs ∨ a.row ∈ rows
  now : s.now ≤ t.now
  commandStart : t.commandStart = s.commandStart
  valueStart : t.valueStart = s.valueStart

/-- A place that has been passed, and behind which nothing starts but in certain rows. -/
structure Marks (place : Nat) (rows : List String) (xs : List Annotation) (s : Session σ) :
    Prop where
  passed : place ≤ s.now
  bounds : ∀ row, row ∉ rows → Until row place xs

theorem Passed.refl (rows : List String) (xs : List Annotation) (s : Session σ) :
    Passed rows xs s xs s :=
  ⟨fun _ => .inl, Nat.le_refl _, rfl, rfl⟩

theorem Passed.trans (h : Passed rows xs s ys t) (h' : Passed rows' ys t zs u) :
    Passed (rows ++ rows') xs s zs u where
  added a ha := by
    rcases h'.added a ha with hmem | hrow
    · exact (h.added a hmem).imp_right fun hrow => List.mem_append_left _ hrow
    · exact .inr (List.mem_append_right _ hrow)
  now := Nat.le_trans h.now h'.now
  commandStart := h'.commandStart.trans h.commandStart
  valueStart := h'.valueStart.trans h.valueStart

theorem Passed.mono (h : Passed rows xs s ys t) (hrows : rows ⊆ rows') : Passed rows' xs s ys t :=
  ⟨fun a ha => (h.added a ha).imp_right fun hrow => hrows hrow, h.now, h.commandStart,
    h.valueStart⟩

/-- Bookkeeping leaves the cursor and the two starts alone. -/
theorem Passed.aside (h : Passed rows xs s ys t) (hcursor : u.decoder.cursor = t.decoder.cursor)
    (hcommand : u.commandStart = t.commandStart) (hvalue : u.valueStart = t.valueStart) :
    Passed rows xs s ys u where
  added := h.added
  now := Nat.le_trans h.now (Nat.le_of_eq (congrArg LineCursor.now hcursor.symm))
  commandStart := hcommand.trans h.commandStart
  valueStart := hvalue.trans h.valueStart

theorem Passed.put {a : Annotation} {row : String} (h : Passed rows xs s ys t)
    (hrow : a.row = row) : Passed (rows ++ [row]) xs s (ys ++ [a]) t where
  added b hb := by
    rcases List.mem_append.1 hb with hmem | hlast
    · exact (h.added b hmem).imp_right fun hrow => List.mem_append_left _ hrow
    · obtain rfl := List.mem_singleton.1 hlast
      exact .inr (List.mem_append_right _ (List.mem_singleton.2 hrow))
  now := h.now
  commandStart := h.commandStart
  valueStart := h.valueStart

/-- A place passed on the way from one moment to another. -/
theorem Passed.marks (h : Passed rows xs s ys t) (hs : Recorded xs s) (hfrom : s.now ≤ place)
    (hto : place ≤ t.now) : Marks place rows ys t where
  passed := hto
  bounds row hrow a ha harow := by
    rcases h.added a ha with hmem | hadded
    · exact Nat.le_trans (hs.past a hmem) hfrom
    · rw [harow] at hadded
      exact absurd hadded hrow

namespace Marks

theorem here (h : Recorded xs s) : Marks s.now [] xs s :=
  (Passed.refl [] xs s).marks h (Nat.le_refl _) (Nat.le_refl _)

theorem later (h : Marks place rows xs s) (hpassed : Passed rows' xs s ys t) :
    Marks place (rows ++ rows') ys t where
  passed := Nat.le_trans h.passed hpassed.now
  bounds row hrow a ha harow := by
    rcases hpassed.added a ha with hmem | hadded
    · exact h.bounds row (fun hin => hrow (List.mem_append_left _ hin)) a hmem harow
    · rw [harow] at hadded
      exact absurd (List.mem_append_right _ hadded) hrow

theorem mono (h : Marks place rows xs s) (hrows : rows ⊆ rows') : Marks place rows' xs s :=
  ⟨h.passed, fun row hrow => h.bounds row fun hin => hrow (hrows hin)⟩

theorem aside (h : Marks place rows xs s) (hcursor : t.decoder.cursor = s.decoder.cursor) :
    Marks place rows xs t where
  passed := Nat.le_trans h.passed (Nat.le_of_eq (congrArg LineCursor.now hcursor.symm))
  bounds := h.bounds

/-- What starts at the place itself may be in any row. -/
theorem put {a : Annotation} (h : Marks place rows xs s) (ha : a.start = place) :
    Marks place rows (xs ++ [a]) s where
  passed := h.passed
  bounds row hrow :=
    List.forall_mem_append.2 ⟨h.bounds row hrow, by simp [ha]⟩

end Marks

end Places

namespace Reception

open Script (Upholds)

variable {σ ε : Type} {rows : List String} {place : Nat} {xs : List Annotation} {s : Session σ}

/-- An annotation that starts at a place that has been passed, with nothing in its row behind it. -/
theorem upholds_emit {f : Session σ → Annotation}
    {Q : Unit → List Annotation → Session σ → Prop} (hpassed : (f s).start ≤ s.now)
    (hrow : Until (f s).row (f s).start xs) (hstop : (f s).stop = s.stop)
    (hQ : Q () (xs ++ [f s]) s) :
    Upholds Recorded (Script.emit f : Reception σ ε Unit) xs s Q := by
  refine .emit (fun h => h.put ?_ hpassed hrow) hQ
  rw [hstop]
  exact Nat.le_trans hpassed (Nat.le_max_left _ _)

/-- An annotation that starts at a marked place. -/
theorem upholds_put (row : String) {f : Session σ → Annotation}
    {Q : Unit → List Annotation → Session σ → Prop} (hmark : Marks place rows xs s)
    (hf : (f s).row = row ∧ (f s).start = place ∧ (f s).stop = s.stop) (hrow : row ∉ rows)
    (hQ : ∀ a, a.row = row → a.start = place → Q () (xs ++ [a]) s) :
    Upholds Recorded (Script.emit f : Reception σ ε Unit) xs s Q := by
  obtain ⟨rfl, rfl, hstop⟩ := hf
  exact upholds_emit hmark.passed (hmark.bounds _ hrow) hstop (hQ _ rfl rfl)

/-! ## Bits and bytes -/

variable [Source σ Sample]

theorem move_passes {step : LineCursor → σ → Except Halt Bool × LineCursor × σ}
    (h : ∀ (c : LineCursor) line, c.Placed → c.Onward (step c line).2.1) (xs : List Annotation)
    (s : Session σ) :
    Upholds Recorded (move step) xs s fun _ ys t => Passed [] xs s ys t := by
  refine .assuming fun hs => ?_
  have honward := h s.decoder.cursor s.source hs.placed
  exact .lift (fun _ => hs.onward honward)
    fun _ _ => ⟨fun _ => .inl, honward.now, rfl, rfl⟩

theorem waitEdge_passes (edge : Edge) (budget : Option Nat) (xs : List Annotation)
    (s : Session σ) :
    Upholds Recorded (waitEdge edge budget) xs s fun _ ys t => Passed [] xs s ys t :=
  move_passes (fun _ line hc => LineCursor.onward_waitEdge hc edge budget line) xs s

theorem skip_passes (count : Nat) (xs : List Annotation) (s : Session σ) :
    Upholds Recorded (skip count) xs s fun _ ys t => Passed [] xs s ys t :=
  move_passes (fun _ line hc => LineCursor.onward_skip hc count line) xs s

theorem sampleBit_passes (xs : List Annotation) (s : Session σ) :
    Upholds Recorded sampleBit xs s fun _ ys t => Passed [] xs s ys t := by
  unfold sampleBit
  refine .bind (.read (.bind ((skip_passes _ xs s).mono ?_)))
  intro _ ys t _ h
  refine .bind ((skip_passes _ ys t).mono ?_)
  intro _ zs u _ h'
  exact .answer (h.trans h')

theorem dataBit_passes (label : Option String) (xs : List Annotation) (s : Session σ) :
    Upholds Recorded (dataBit label) xs s fun _ ys t => Passed ["data-bit"] xs s ys t := by
  unfold dataBit
  refine .assuming fun hs => .bind (.read (.bind ((sampleBit_passes xs s).mono ?_)))
  intro _ ys t _ h
  have hmark : Marks s.now [] ys t := h.marks hs (Nat.le_refl _) h.now
  exact .bind (upholds_put _ hmark ⟨rfl, rfl, rfl⟩ List.not_mem_nil fun _ hrow _ =>
    .answer (h.put hrow))

theorem dataBits_passes (n : Nat) (xs : List Annotation) (s : Session σ) :
    Upholds Recorded (dataBits n) xs s fun _ ys t => Passed ["data-bit"] xs s ys t := by
  induction n generalizing xs s with
  | zero => exact .answer (.refl _ xs s)
  | succ n ih =>
    refine .bind ((dataBit_passes _ xs s).mono ?_)
    intro _ ys t _ h
    refine .bind ((ih ys t).mono ?_)
    intro _ zs u _ h'
    exact .answer ((h.trans h').mono (by simp))

/-- A stop bit that is missing gives a warning in its place. -/
theorem stopBits_passes (xs : List Annotation) (s : Session σ) :
    Upholds Recorded stopBits xs s fun level ys t =>
      Passed [if level then "stop-bit" else "warnings"] xs s ys t := by
  unfold stopBits
  refine .assuming fun hs => .bind (.read (.bind (.read (.bind ((skip_passes _ xs s).mono ?_)))))
  intro level ys t _ h
  refine .bind (.modify id (.bind ?_))
  generalize hframe : ({ t with frameEnd := s.now + 2 * s.decoder.bitTime } : Session σ) = u
  have hu : Passed [] xs s ys u := by
    subst hframe
    exact h.aside rfl rfl rfl
  have hmark : Marks s.now [] ys u := hu.marks hs (Nat.le_refl _) hu.now
  cases level with
  | true => exact upholds_put _ hmark ⟨rfl, rfl, rfl⟩ List.not_mem_nil fun _ hrow _ =>
      .answer (hu.put hrow)
  | false => exact upholds_put _ hmark ⟨rfl, rfl, rfl⟩ List.not_mem_nil fun _ hrow _ =>
      .answer (hu.put hrow)

theorem startBit_passes (xs : List Annotation) (s : Session σ) :
    Upholds Recorded startBit xs s fun start ys t =>
      Passed ["start-bit"] xs s ys t ∧ s.now ≤ start ∧ start ≤ t.now := by
  unfold startBit
  refine .bind (.mapError ((waitEdge_passes _ _ xs s).mono ?_))
  intro _ ys t ht h
  refine .bind (.read (.bind (.read (.bind (.mapError ((skip_passes _ ys t).mono ?_))))))
  intro high zs u _ h'
  refine .ite (fun _ => ?_) fun _ => ?_
  · exact .bind (.note (.bind (.modify id .fail)))
  · refine .bind (.mapError ((skip_passes _ zs u).mono ?_))
    intro _ ws v _ h''
    have hmiddle : Passed [] ys t ws v := h'.trans h''
    have hmark : Marks t.now [] ws v := hmiddle.marks ht (Nat.le_refl _) hmiddle.now
    exact .bind (upholds_put _ hmark ⟨rfl, rfl, rfl⟩ List.not_mem_nil fun _ hrow _ =>
      .answer ⟨(h.trans hmiddle).put hrow, h.now, hmiddle.now⟩)

end Reception

/-- The rows in which a byte and its bits are shown. -/
def byteRows : List String :=
  ["start-bit", "data-bit", "stop-bit", "byte-value"]

namespace Reception

open Script (Upholds)

variable {σ ε : Type} {rows : List String} {place : Nat} {xs : List Annotation} {s : Session σ}
  [Source σ Sample]

/-- A byte that was read is marked by its start. -/
theorem readByte_passes (xs : List Annotation) (s : Session σ) :
    Upholds Recorded readByte xs s fun _ ys t =>
      Passed byteRows xs s ys t ∧ Marks t.byteStart byteRows ys t := by
  unfold readByte
  refine .assuming fun hs => .bind ((startBit_passes xs s).mono ?_)
  rintro start ys t - ⟨hstart, hfrom, hto⟩
  refine .bind (.mapError ((dataBits_passes 8 ys t).mono ?_))
  intro bits zs u _ hbits
  refine .bind (.mapError ((stopBits_passes zs u).mono ?_))
  intro stopped ws v _ hstop
  refine .ite (fun hstopped => ?_) fun _ => ?_
  · subst hstopped
    have hpassed : Passed ["start-bit", "data-bit", "stop-bit"] xs s ws v :=
      (hstart.trans hbits).trans hstop
    have hmark : Marks start ["start-bit", "data-bit", "stop-bit"] ws v :=
      hpassed.marks hs hfrom (Nat.le_trans hto (Nat.le_trans hbits.now hstop.now))
    refine .bind (.modify id (.bind (.note (.bind ?_))))
    have hmark := hmark.aside (t := { v with byteStart := start }) rfl
    have hpassed := hpassed.aside (u := { v with byteStart := start }) rfl rfl rfl
    refine upholds_put "byte-value" hmark ⟨rfl, rfl, rfl⟩ (by decide) fun a hrow ha =>
      .answer ⟨hpassed.put hrow, ?_⟩
    exact (hmark.put ha).mono (List.subset_append_left _ ["byte-value"])
  · exact .bind (.note (.bind (.modify id .fail)))

/-! ## Syncs -/

theorem measureBits_passes (maxBitTime n : Nat) (xs : List Annotation) (s : Session σ) :
    Upholds Recorded (measureBits maxBitTime n) xs s fun _ ys t =>
      Passed ["data-bit"] xs s ys t := by
  induction n generalizing xs s with
  | zero => exact .answer (.refl _ xs s)
  | succ n ih =>
    refine .assuming fun hs => .bind (.read (.bind ((waitEdge_passes _ _ xs s).mono ?_)))
    intro _ ys t _ h
    refine .bind (.read (.ite (fun _ => .bind (.note (.answer (h.mono ?_)))) fun _ => ?_))
    · exact List.nil_subset _
    · have hmark : Marks s.now [] ys t := h.marks hs (Nat.le_refl _) h.now
      refine .bind (upholds_put _ hmark ⟨rfl, rfl, rfl⟩ List.not_mem_nil fun a hrow _ => ?_)
      refine (ih (ys ++ [a]) t).mono ?_
      intro _ zs u _ h'
      exact ((h.put hrow).trans h').mono (by simp)

/-- The rows in which the bits of a sync byte are shown, but for its start bit, which starts with
it. -/
def syncRows : List String :=
  ["data-bit", "stop-bit"]

theorem finishSync_marks (h : Marks place ["data-bit"] xs s) :
    Upholds Recorded (finishSync place) xs s fun stopped ys t =>
      stopped = true → Marks place syncRows ys t := by
  unfold finishSync
  refine .bind ((dataBit_passes _ xs s).mono ?_)
  intro _ ys t _ hbit
  refine .bind ((stopBits_passes ys t).mono ?_)
  intro stopped zs u _ hstop
  refine .ite (fun hstopped => ?_) fun hstopped => .bind (.note (.answer nofun))
  subst hstopped
  have hmark : Marks place syncRows zs u :=
    ((h.later hbit).later hstop).mono (by simp [syncRows])
  refine .bind (upholds_put "byte-value" hmark ⟨rfl, rfl, rfl⟩ (by decide) fun a _ ha => ?_)
  refine .bind (upholds_put "sync" (hmark.put ha) ⟨rfl, rfl, rfl⟩ (by decide) fun b _ hb => ?_)
  exact .answer fun _ => (hmark.put ha).put hb

theorem adoptPeriod_marks (h : Marks place ["data-bit"] xs s) (intervals : Nat) :
    Upholds Recorded (adoptPeriod place intervals) xs s fun stopped ys t =>
      stopped = true → Marks place syncRows ys t := by
  unfold adoptPeriod
  refine .bind (.read (.ite (fun _ => .fail) fun _ => .ite (fun _ => .answer nofun) fun _ => ?_))
  exact .bind (.modify id (finishSync_marks (h.aside rfl)))

theorem measureSync_marks (h : Marks place [] xs s) :
    Upholds Recorded (measureSync place) xs s fun accepted ys t =>
      accepted = true → Marks place syncRows ys t := by
  unfold measureSync
  refine .bind (.read (.bind ((waitEdge_passes _ _ xs s).mono ?_)))
  intro _ ys t _ hwait
  refine .bind (.read (.ite (fun _ => .bind (.note (.answer nofun))) fun _ => ?_))
  have hmark : Marks place [] ys t := h.later hwait
  refine .bind (upholds_put _ hmark ⟨rfl, rfl, rfl⟩ List.not_mem_nil fun a _ ha => .bind ?_)
  refine (measureBits_passes _ _ (ys ++ [a]) t).mono ?_
  intro credible zs u _ hbits
  exact .ite (fun _ => adoptPeriod_marks ((hmark.put ha).later hbits) _) fun _ => .answer nofun

/-- What is held back during an attempt is in order when it follows; dropped, it leaves no trace. -/
theorem trySync_marks (xs : List Annotation) (s : Session σ) :
    Upholds Recorded trySync xs s fun accepted ys t =>
      accepted = true → Marks t.decoder.syncStart syncRows ys t := by
  unfold trySync
  refine .bind ((waitEdge_passes _ _ xs s).mono ?_)
  intro _ ys t ht _
  refine .bind (.read (.bind (.modify id (.bind (.withhold (fun _ _ _ h => h.of_append) ?_)))))
  have hmark : Marks t.now [] ys t := .here ht
  refine (measureSync_marks (hmark.aside (t := { t with frameEnd := t.now }) rfl)).mono ?_
  intro accepted zs u _ h
  refine .ite (fun haccepted => ?_) fun haccepted => .answer nofun
  subst haccepted
  exact .bind (.modify id (.bind (.modify id (.bind (.note (.answer fun _ => (h rfl).aside rfl))))))

theorem sync_marks (xs : List Annotation) (s : Session σ) :
    Upholds Recorded sync xs s fun _ ys t => Marks t.decoder.syncStart syncRows ys t := by
  refine .loop (fun ys t => ?_) xs s
  unfold attemptSync
  refine .bind ((trySync_marks ys t).mono ?_)
  intro accepted zs u _ h
  exact .ite (fun haccepted => .answer fun _ _ => h haccepted) fun _ =>
    .bind (.modify id (.answer nofun))

end Reception

end Updi

end BusDecode
