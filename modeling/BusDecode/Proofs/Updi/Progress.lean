import BusDecode.Proofs.LineCursor.Calls
import BusDecode.Proofs.Sinks
import BusDecode.Proofs.Updi.Transmission

/-!
# Decoding makes progress

Decoding is loops within loops, of steps, of attempts at a sync and of the rounds of a repeated
instruction, and how long they go on is up to the line.  What gets them on is the wait for a falling
edge that each attempt and each byte begins with: it does not give up, so it has taken a sample
unless the line is over (`Reception.advances_readByte`, `Decoder.consumes_step`).

On the other hand nothing brings a reception to a halt but the end of its line, a size that no
command has, or an average over no interval (`Halted`), and the end of the line leaves nothing of
it.  So decoding takes at most one step more than the line has samples (`Decoder.stepped_run`) and,
if it succeeds, has read all of them (`Decoder.decode_progresses`).
-/

set_option autoImplicit false

namespace BusDecode

/-! ## Calls on a list -/

namespace LineCursor

variable {α α' : Type}

/-- A call on a list takes samples off its front, and fails only where the list ends. -/
structure TakesFrom (s : List Sample) (r : Except Halt α × LineCursor × List Sample) : Prop where
  suffix : r.2.2 <:+ s
  ended : ∀ e, r.1 = .error e → e = .endOfStream ∧ r.2.2 = []

theorem TakesFrom.answered {s rest : List Sample} {c : LineCursor} (a : α) (h : rest <:+ s) :
    TakesFrom s (.ok a, c, rest) :=
  ⟨h, fun _ he => by cases he⟩

theorem TakesFrom.trans {s rest : List Sample} {r : Except Halt α × LineCursor × List Sample}
    (h : TakesFrom rest r) (hrest : rest <:+ s) : TakesFrom s r :=
  ⟨h.suffix.trans hrest, h.ended⟩

theorem TakesFrom.failed {e : Halt} {s rest : List Sample} {c : LineCursor}
    (h : TakesFrom s ((.error e, c, rest) : Except Halt α × LineCursor × List Sample)) :
    TakesFrom s ((.error e, c, rest) : Except Halt α' × LineCursor × List Sample) :=
  ⟨h.suffix, fun e' he => h.ended e' (congrArg _ (Except.error.inj he))⟩

theorem takesFrom_nil (c : LineCursor) :
    TakesFrom [] ((.error .endOfStream, c, []) : Except Halt α × LineCursor × List Sample) :=
  ⟨List.suffix_refl _, fun _ he => ⟨(Except.error.inj he).symm, rfl⟩⟩

theorem takesFrom_prime (c : LineCursor) (s : List Sample) : TakesFrom s (prime c s) := by
  unfold prime
  split
  · exact .answered () (List.suffix_refl _)
  · cases s with
    | nil => exact takesFrom_nil c
    | cons x s => exact .answered () (List.suffix_cons x s)

theorem takesFrom_seek (edge : Edge) (deadline : Option Nat) (c : LineCursor) (s : List Sample) :
    TakesFrom s (seek edge deadline c s) := by
  induction s generalizing c with
  | nil =>
    rw [seek_nil]
    exact takesFrom_nil c
  | cons x s ih =>
    have hrest := List.suffix_cons x s
    obtain ⟨d, -, -, hlate⟩ | ⟨-, hread⟩ := seek_step edge deadline c x s
    · rw [hlate]
      exact .answered false (List.suffix_refl _)
    rw [hread]
    split
    · exact (ih c).trans hrest
    split
    · exact .answered true hrest
    · exact (ih _).trans hrest

theorem takesFrom_advance (target : Nat) (c : LineCursor) (s : List Sample) :
    TakesFrom s (advance target c s) := by
  induction s generalizing c with
  | nil =>
    rw [advance_nil]
    exact .answered _ (List.suffix_refl _)
  | cons x s ih =>
    rw [advance_cons]
    split
    · exact .answered _ (List.suffix_refl _)
    split
    · exact .answered _ (List.suffix_refl _)
    · exact (ih _).trans (List.suffix_cons x s)

theorem takesFrom_waitEdge (edge : Edge) (budget : Option Nat) (c : LineCursor)
    (s : List Sample) : TakesFrom s (waitEdge edge budget c s) := by
  have hprime := takesFrom_prime c s
  unfold waitEdge
  generalize prime c s = r at hprime ⊢
  rcases r with ⟨e | _, c', s'⟩
  · exact hprime.failed
  · exact (takesFrom_seek edge _ c' s').trans hprime.suffix

theorem takesFrom_skip (count : Nat) (c : LineCursor) (s : List Sample) :
    TakesFrom s (skip count c s) := by
  have hprime := takesFrom_prime c s
  unfold skip
  generalize prime c s = r at hprime ⊢
  rcases r with ⟨e | _, c', s'⟩
  · exact hprime.failed
  · exact (takesFrom_advance _ c' s').trans hprime.suffix

end LineCursor

/-! ## What a script leads to -/

namespace Script

variable {δ β ε ε' α α' : Type}

/-- From any state of a kind a script leads to one of that kind, and it fails only as told. -/
def Leads (I : δ → Prop) (E : ε → δ → Prop) (m : Script δ β ε α) : Prop :=
  ∀ s, I s → I (m.run s).state ∧ ∀ e, (m.run s).result = .error e → E e (m.run s).state

namespace Leads

variable {I : δ → Prop} {E : ε → δ → Prop} {m : Script δ β ε α}

theorem answer (a : α) : Leads I E (pure a : Script δ β ε α) :=
  fun _ hs => ⟨hs, fun _ he => by cases he⟩

theorem fail {e : ε} (h : ∀ s, I s → E e s) : Leads I E (Script.fail e : Script δ β ε α) :=
  fun s hs => ⟨hs, fun _ he => Except.error.inj he ▸ h s hs⟩

theorem read (f : δ → α) : Leads I E (Script.read f : Script δ β ε α) :=
  fun _ hs => ⟨hs, fun _ he => by cases he⟩

theorem modify {f : δ → δ} (h : ∀ s, I s → I (f s)) :
    Leads I E (Script.modify f : Script δ β ε Unit) :=
  fun s hs => ⟨h s hs, fun _ he => by cases he⟩

theorem note (f : δ → Event) : Leads I E (Script.note f : Script δ β ε Unit) :=
  fun _ hs => ⟨hs, fun _ he => by cases he⟩

theorem emit (f : δ → β) : Leads I E (Script.emit f : Script δ β ε Unit) :=
  fun _ hs => ⟨hs, fun _ he => by cases he⟩

theorem bind {f : α → Script δ β ε α'} (hm : Leads I E m) (hf : ∀ a, Leads I E (f a)) :
    Leads I E (m >>= f) := by
  intro s hs
  obtain ⟨hstate, herror⟩ := hm s hs
  rcases hrun : m.run s with ⟨e | a, t, effects⟩
  · rw [hrun] at hstate herror
    rw [run_bind_error hrun]
    exact ⟨hstate, fun e' he => herror e' (congrArg _ (Except.error.inj he))⟩
  · rw [hrun] at hstate
    rw [run_bind_ok hrun]
    exact hf a t hstate

/-- What is read off the state is known of it. -/
theorem read_bind {f : δ → α} {k : α → Script δ β ε α'} (h : ∀ s, I s → Leads I E (k (f s))) :
    Leads I E (Script.read f >>= k) :=
  fun s hs => h s hs s hs

theorem ite {c : Prop} [Decidable c] {m' : Script δ β ε α} (h : c → Leads I E m)
    (h' : ¬c → Leads I E m') : Leads I E (if c then m else m') := by
  split
  · exact h ‹_›
  · exact h' ‹_›

theorem mapError {f : ε → ε'} {E : ε' → δ → Prop} (h : Leads I (fun e => E (f e)) m) :
    Leads I E (m.mapError f) := by
  intro s hs
  obtain ⟨hstate, herror⟩ := h s hs
  refine ⟨hstate, fun e' he => ?_⟩
  rw [run_mapError] at he ⊢
  cases hresult : (m.run s).result with
  | ok a =>
    rw [hresult] at he
    cases he
  | error e =>
    rw [hresult] at he
    exact Except.error.inj he ▸ herror e hresult

theorem withhold {m : Script δ β ε Bool} (h : Leads I E m) : Leads I E m.withhold := by
  intro s hs
  rw [state_withhold, result_withhold]
  exact h s hs

theorem loop {m : Script δ β ε (Option α)} (hm : Leads I E m) (size : δ → Nat)
    (h : Descends size m) : Leads I E (Script.loop m size h) := by
  intro s
  induction hn : size s using Nat.strongRecOn generalizing s with
  | ind n ih =>
    subst hn
    intro hs
    obtain ⟨hstate, herror⟩ := hm s hs
    have hless := h s
    rw [loop_eq]
    rcases hrun : m.run s with ⟨e | _ | a, t, effects⟩
    · rw [hrun] at hstate herror
      rw [run_bind_error hrun]
      exact ⟨hstate, fun e' he => herror e' (congrArg _ (Except.error.inj he))⟩
    · rw [hrun] at hstate hless
      rw [run_bind_ok hrun]
      exact ih _ (hless rfl) t rfl hstate
    · rw [hrun] at hstate
      rw [run_bind_ok hrun]
      exact ⟨hstate, fun _ he => by cases he⟩

end Leads

end Script

namespace Updi

open Script (Leads)
open LineCursor (TakesFrom)

/-! ## What stops a reception -/

/-- Why reception under a configuration comes to a halt, and what it then leaves of the line. -/
inductive Halted (config : Config) : Halt → List Sample → Prop
  | ended : Halted config .endOfStream []
  | undecodable (error : DecodeError) (left : List Sample) :
      Halted config (.undecodable error) left
  | unmeasured (h : config.syncIntervals = 0) (left : List Sample) :
      Halted config .noIntervals left

/-- Where intervals are measured, it is the end of the line or an error of what is on it. -/
theorem Halted.measured {config : Config} {e : Halt} {left : List Sample}
    (h : Halted config e left) (hintervals : 1 ≤ config.syncIntervals) :
    (e = .endOfStream ∧ left = []) ∨ ∃ error, e = .undecodable error := by
  cases h with
  | ended => exact .inl ⟨rfl, rfl⟩
  | undecodable error => exact .inr ⟨error, rfl⟩
  | unmeasured hzero => omega

/-- A session under a configuration that has come to somewhere on a line. -/
def Session.Along (line : List Sample) (config : Config) (s : Session (List Sample)) : Prop :=
  s.source <:+ line ∧ s.decoder.config = config

namespace Reception

variable {line : List Sample} {config : Config} {ε α α' : Type}

/-- A reception that goes on along its line until it stops for good. -/
abbrev KeepsOn (line : List Sample) (config : Config) (m : Reception (List Sample) Halt α) : Prop :=
  Leads (Session.Along line config) (fun e s => Halted config e s.source) m

/-- The same of a part of a command, which broken framing ends as well. -/
abbrev GoesOn (line : List Sample) (config : Config)
    (m : Reception (List Sample) Interrupt α) : Prop :=
  Leads (Session.Along line config)
    (fun e s => ∀ reason, e = .halt reason → Halted config reason s.source) m

theorem KeepsOn.orHalt {m : Reception (List Sample) Halt α} (h : KeepsOn line config m) :
    GoesOn line config m.orHalt := by
  apply Leads.mapError
  intro s hs
  obtain ⟨hstate, herror⟩ := h s hs
  exact ⟨hstate, fun e he _ hreason => Interrupt.halt.inj hreason ▸ herror e he⟩

theorem keepsOn_move {step : LineCursor → List Sample → Except Halt Bool × LineCursor × List Sample}
    (h : ∀ c s, TakesFrom s (step c s)) : KeepsOn line config (move step) := by
  intro s hs
  have hstep := h s.decoder.cursor s.source
  refine ⟨⟨hstep.suffix.trans hs.1, hs.2⟩, fun e he => ?_⟩
  obtain ⟨rfl, hleft⟩ := hstep.ended e he
  change Halted config _ (step s.decoder.cursor s.source).2.2
  rw [hleft]
  exact .ended

theorem keepsOn_waitEdge (edge : Edge) (budget : Option Nat) :
    KeepsOn line config (waitEdge edge budget) :=
  keepsOn_move (LineCursor.takesFrom_waitEdge edge budget)

theorem keepsOn_skip (samples : Nat) : KeepsOn line config (skip samples) :=
  keepsOn_move (LineCursor.takesFrom_skip samples)

theorem keepsOn_dataBit (label : Option String) : KeepsOn line config (dataBit label) :=
  .bind (.read _) fun _ =>
    .bind (.bind (.read _) fun _ => .bind (keepsOn_skip _) fun _ => .bind (keepsOn_skip _) fun _ =>
      .answer _) fun _ => .bind (.emit _) fun _ => .answer _

theorem keepsOn_dataBits (n : Nat) : KeepsOn line config (dataBits n) := by
  induction n with
  | zero => exact .answer _
  | succ n ih => exact .bind (keepsOn_dataBit _) fun _ => .bind ih fun _ => .answer _

theorem keepsOn_stopBits : KeepsOn line config stopBits :=
  .bind (.read _) fun _ => .bind (.read _) fun _ => .bind (keepsOn_skip _) fun _ =>
    .bind (.modify fun _ hs => hs) fun _ =>
      .bind (.ite (fun _ => .emit _) fun _ => .emit _) fun _ => .answer _

theorem goesOn_resync : GoesOn line config (Script.fail .resync : Reception _ _ α) :=
  .fail fun _ _ _ h => by cases h

theorem goesOn_startBit : GoesOn line config startBit :=
  .bind (keepsOn_waitEdge _ _).orHalt fun _ => .bind (.read _) fun _ => .bind (.read _) fun _ =>
    .bind (keepsOn_skip _).orHalt fun _ => .ite
      (fun _ => .bind (.note _) fun _ => .bind (.modify fun _ hs => hs) fun _ => goesOn_resync)
      fun _ => .bind (keepsOn_skip _).orHalt fun _ => .bind (.emit _) fun _ => .answer _

theorem goesOn_readByte : GoesOn line config readByte :=
  .bind goesOn_startBit fun _ => .bind (keepsOn_dataBits _).orHalt fun _ =>
    .bind keepsOn_stopBits.orHalt fun _ => .ite
      (fun _ => .bind (.modify fun _ hs => hs) fun _ => .bind (.note _) fun _ =>
        .bind (.emit _) fun _ => .answer _)
      fun _ => .bind (.note _) fun _ => .bind (.modify fun _ hs => hs) fun _ => goesOn_resync

/-! ## Measuring -/

theorem keepsOn_measureBits (maxBitTime n : Nat) :
    KeepsOn line config (measureBits maxBitTime n) := by
  induction n with
  | zero => exact .answer _
  | succ n ih =>
    exact .bind (.read _) fun _ => .bind (keepsOn_waitEdge _ _) fun _ => .bind (.read _) fun _ =>
      .ite (fun _ => .bind (.note _) fun _ => .answer _) fun _ => .bind (.emit _) fun _ => ih

theorem keepsOn_finishSync (start : Nat) : KeepsOn line config (finishSync start) :=
  .bind (keepsOn_dataBit _) fun _ => .bind keepsOn_stopBits fun _ =>
    .ite (fun _ => .bind (.emit _) fun _ => .bind (.emit _) fun _ => .answer _)
      fun _ => .bind (.note _) fun _ => .answer _

theorem keepsOn_adoptPeriod (start : Nat) :
    KeepsOn line config (adoptPeriod start config.syncIntervals) :=
  .bind (.read _) fun _ => .ite (fun hzero => .fail fun _ _ => .unmeasured hzero _) fun _ =>
    .ite (fun _ => .answer _) fun _ =>
      .bind (.modify fun _ hs => hs) fun _ => keepsOn_finishSync _

theorem keepsOn_measureSync (start : Nat) : KeepsOn line config (measureSync start) := by
  apply Leads.read_bind
  intro s hs
  -- the configuration that is read is that of the line
  rw [hs.2]
  exact .bind (keepsOn_waitEdge _ _) fun _ => .bind (.read _) fun _ =>
    .ite (fun _ => .bind (.note _) fun _ => .answer _) fun _ =>
      .bind (.emit _) fun _ => .bind (keepsOn_measureBits _ _) fun _ =>
        .ite (fun _ => keepsOn_adoptPeriod _) fun _ => .answer _

theorem keepsOn_attemptSync : KeepsOn line config attemptSync := by
  have htry : KeepsOn line config trySync :=
    .bind (keepsOn_waitEdge _ _) fun _ => .bind (.read _) fun _ =>
      .bind (.modify fun _ hs => hs) fun _ => .bind (keepsOn_measureSync _).withhold fun _ =>
        .ite (fun _ => .bind (.modify fun _ hs => hs) fun _ => .bind (.modify fun _ hs => hs)
          fun _ => .bind (.note _) fun _ => .answer _) fun _ => .answer _
  exact .bind htry fun _ => .ite (fun _ => .answer _) fun _ =>
    .bind (.modify fun _ hs => hs) fun _ => .answer _

theorem keepsOn_sync : KeepsOn line config sync :=
  keepsOn_attemptSync.loop _ _

/-! ## Commands -/

end Reception

section Commands

variable {line : List Sample} {config : Config}

/-- A run along a grammar reads bytes and syncs, so it stops as they do, or where the grammar
refuses a size. -/
theorem Follows.goesOn {α β : Type} {Q : α → β → Session (List Sample) → Prop} {g : Grammar β}
    {s : Session (List Sample)} {t : Trace (Session (List Sample)) Annotation Interrupt α}
    (h : Follows Q g s t) (hs : s.Along line config) :
    t.state.Along line config ∧
      ∀ e, t.result = .error (.halt e) → Halted config e t.state.source := by
  induction h with
  | done h => exact ⟨hs, fun _ he => by cases he⟩
  | refuse error s =>
    refine ⟨hs, fun e he => ?_⟩
    cases he
    exact .undecodable error _
  | say x hx hrow h ih => exact ih hs
  | note event h ih => exact ih hs
  | aside haside h ih =>
    obtain ⟨hsource, n, hdecoder⟩ := haside
    apply ih
    exact ⟨hsource ▸ hs.1, by rw [hdecoder]; exact hs.2⟩
  | @byte k s s' b effects t hr h ih =>
    have hbyte := Reception.goesOn_readByte s hs
    rw [hr] at hbyte
    exact ih hbyte.1
  | @noByte s s' e effects k hr =>
    have hbyte := Reception.goesOn_readByte s hs
    rw [hr] at hbyte
    exact ⟨hbyte.1, fun e' he => hbyte.2 e rfl e' (Except.error.inj he)⟩
  | @resync g s s' effects t hr h ih =>
    have hsync := Reception.keepsOn_sync s hs
    rw [hr] at hsync
    exact ih hsync.1
  | @noResync s s' e effects k hr =>
    have hsync := Reception.keepsOn_sync s hs
    rw [hr] at hsync
    refine ⟨hsync.1, fun e' he => ?_⟩
    cases he
    exact hsync.2 e rfl

theorem Reception.keepsOn_command : KeepsOn line config command := by
  intro s hs
  have hsync := keepsOn_sync s hs
  rcases hrun : sync.run s with ⟨e | ⟨⟩, s', effects⟩
  · rw [hrun] at hsync
    rw [command, Script.run_bind_error hrun]
    exact ⟨hsync.1, fun e' he => hsync.2 e' (congrArg _ (Except.error.inj he))⟩
  · rw [hrun] at hsync
    obtain ⟨hstate, herror⟩ := (follows_afterSync s').goesOn hsync.1
    rw [run_command hrun]
    refine ⟨hstate, fun e he => herror e ?_⟩
    change settle (afterSync.run s').result = .error e at he
    rcases hresult : (afterSync.run s').result with (_ | reason) | _
    · rw [hresult] at he
      cases he
    · rw [hresult] at he
      exact congrArg _ (congrArg _ (Except.error.inj he))
    · rw [hresult] at he
      cases he

end Commands

/-! ## What takes a sample -/

namespace Reception

section Advancing

variable {σ α α' : Type} [Source σ Sample]

/-- A part of a command that leaves less unread unless it comes to a halt. -/
def Advances (m : Reception σ Interrupt α) : Prop :=
  ∀ s, (∀ reason, (m.run s).result ≠ .error (.halt reason)) → (m.run s).state.unread < s.unread

theorem advances_orHalt {m : Reception σ Halt α} (h : Script.Consumes Session.unread m) :
    Advances m.orHalt := by
  intro s hs
  cases hresult : (m.run s).result with
  | ok a => exact h s a hresult
  | error e =>
    refine absurd ?_ (hs e)
    change (m.run s).result.mapError Interrupt.halt = _
    rw [hresult]
    rfl

theorem Advances.bind {m : Reception σ Interrupt α} {f : α → Reception σ Interrupt α'}
    (hm : Advances m) (hf : ∀ a, Frugal (f a)) : Advances (m >>= f) := by
  intro s hs
  rcases hrun : m.run s with ⟨e | a, s', effects⟩
  · rw [Script.run_bind_error hrun] at hs ⊢
    have hless := hm s
    rw [hrun] at hless
    exact hless fun reason he => hs reason (congrArg _ (Except.error.inj he))
  · have hless := hm s
    rw [hrun] at hless
    rw [Script.run_bind_ok hrun]
    exact Nat.lt_of_le_of_lt (hf a s') (hless fun _ he => by cases he)

/-- **A start bit** takes a sample, be it a false one. -/
theorem advances_startBit : Advances (startBit : Reception σ Interrupt Nat) :=
  (advances_orHalt (consumes_waitEdge _)).bind fun _ => .bind (.read _) fun _ =>
    .bind (.read _) fun _ => .bind (frugal_orHalt (frugal_skip _)) fun _ =>
      .ite (.bind (frugal_tell _ _) fun _ => .bind (frugal_count _) fun _ => .fail _)
        (.bind (frugal_orHalt (frugal_skip _)) fun _ => .bind (frugal_putBit _ _ _) fun _ =>
          .answer _)

/-- **A byte** takes a sample, be its frame broken or not. -/
theorem advances_readByte : Advances (readByte : Reception σ Interrupt UInt8) :=
  advances_startBit.bind fun _ => .bind (frugal_orHalt (frugal_dataBits _)) fun _ =>
    .bind (frugal_orHalt frugal_stopBits) fun _ =>
      .ite (.bind (frugal_modify fun _ => rfl) fun _ => .bind (frugal_tell _ _) fun _ =>
          .bind (frugal_putByte _ _) fun _ => .answer _)
        (.bind (frugal_tell _ _) fun _ => .bind (frugal_count _) fun _ => .fail _)

end Advancing

section Removing

variable {ε α : Type}

/-- Some samples have been removed from the front of a line. -/
def Removed (line left : List Sample) : Prop :=
  ∃ removed, removed ≠ [] ∧ line = removed ++ left

theorem removed_of_suffix {line left : List Sample} (h : left <:+ line)
    (hless : left.length < line.length) : Removed line left := by
  obtain ⟨removed, rfl⟩ := h
  refine ⟨removed, ?_, rfl⟩
  intro hnil
  rw [hnil] at hless
  exact Nat.lt_irrefl _ hless

/-- A reception that ends with a result has removed samples from its line. -/
def Removes (m : Reception (List Sample) ε α) (result : Except ε α) : Prop :=
  ∀ s, (m.run s).result = result → Removed s.source (m.run s).state.source

theorem removes_of_unread {E : Config → ε → Session (List Sample) → Prop}
    {m : Reception (List Sample) ε α} {result : Except ε α}
    (h : ∀ line config, Leads (Session.Along line config) (E config) m)
    (hless : ∀ s, (m.run s).result = result → (m.run s).state.unread < s.unread) :
    Removes m result := by
  intro s hresult
  obtain ⟨hstate, -⟩ := h s.source s.decoder.config s ⟨List.suffix_refl _, rfl⟩
  exact removed_of_suffix hstate.1 (hless s hresult)

theorem removes_abandoned : Removes attemptSync (.ok none) :=
  removes_of_unread (fun _ _ => keepsOn_attemptSync) fun s => consumes_attemptSync s none

/-- A part of a command that advances has removed samples if nothing halts it. -/
theorem Advances.removes {m : Reception (List Sample) Interrupt α}
    {result : Except Interrupt α} (hm : Advances m)
    (h : ∀ line config, GoesOn line config m)
    (hresult : ∀ reason, result ≠ .error (.halt reason)) : Removes m result :=
  removes_of_unread (fun line config => h line config) fun s hs =>
    hm s fun reason => hs ▸ hresult reason

theorem removes_received (b : UInt8) : Removes readByte (.ok b) :=
  advances_readByte.removes (fun _ _ => goesOn_readByte) (by simp)

theorem removes_broken : Removes readByte (.error .resync) :=
  advances_readByte.removes (fun _ _ => goesOn_readByte) (by simp)

theorem removes_falseStart : Removes startBit (.error .resync) :=
  advances_startBit.removes (fun _ _ => goesOn_startBit) (by simp)

end Removing

end Reception

namespace Decoder

/-! ## Step by step -/

section Steps

variable {σ κ : Type} [Source σ Sample] [Sink κ Annotation]

/-- Decoding in a number of steps: each is played to what the one before has left of the sink, and
all but the last answer. -/
inductive Stepped : Nat → OnLine σ → κ → Played (OnLine σ) κ Unit → Prop
  | last {s : OnLine σ} {sink : κ} {e : Halt} (h : ((step.run s).play sink).result = .error e) :
      Stepped 1 s sink ((step.run s).play sink)
  | more {n : Nat} {s s' : OnLine σ} {sink sink' : κ} {told : List Event}
      {played : Played (OnLine σ) κ Unit} (h : (step.run s).play sink = ⟨.ok (), s', sink', told⟩)
      (hrest : Stepped n s' sink' played) : Stepped (n + 1) s sink (played.between told [])

/-- A step that a sink lets answer has taken a sample. -/
theorem unread_played_lt {s : OnLine σ} {sink : κ}
    (h : ((step.run s).play sink).result = .ok ()) :
    ((step.run s).play sink).state.unread < s.unread := by
  obtain ⟨hresult, hstate⟩ := Trace.play_ok h
  rw [hstate]
  exact consumes_step s () hresult

/-- **A run is steps**, at most one more than there are samples. -/
theorem stepped_run (s : OnLine σ) (sink : κ) :
    ∃ n, n ≤ s.unread + 1 ∧ Stepped n s sink ((run.run s).play sink) := by
  induction hn : s.unread using Nat.strongRecOn generalizing s sink with
  | ind n ih =>
    subst hn
    have hless : ((step.run s).play sink).result = .ok () →
        ((step.run s).play sink).state.unread < s.unread := unread_played_lt
    rw [run_eq, Trace.play_bind]
    rcases hplay : (step.run s).play sink with ⟨e | ⟨⟩, s', sink', told⟩
    · refine ⟨1, Nat.le_add_left 1 _, ?_⟩
      dsimp only
      rw [← hplay]
      exact .last (congrArg Played.result hplay)
    · rw [hplay] at hless
      -- the step has taken a sample, so the steps after it may be one less
      obtain ⟨n, hle, hrest⟩ := ih _ (hless rfl) s' sink' rfl
      exact ⟨n + 1, Nat.succ_le_succ (Nat.le_trans hle (hless rfl)), .more hplay hrest⟩

end Steps

section Endings

variable {κ : Type} [Sink κ Annotation] {line : List Sample} {config : Config}

/-- A decoder under a configuration that has come to somewhere on a line. -/
def OnLine.Along (line : List Sample) (config : Config) (s : OnLine (List Sample)) : Prop :=
  s.source <:+ line ∧ s.decoder.config = config

theorem keepsOn_step :
    Leads (OnLine.Along line config) (fun e s => Halted config e s.source) step := by
  intro s hs
  unfold step
  dsimp only
  split
  · refine ⟨hs, fun e he => ?_⟩
    cases he
    exact .undecodable _ _
  · exact Reception.keepsOn_command { decoder := s.decoder, source := s.source } hs

/-- How steps end: as the last one does by itself, or with a refusal. -/
theorem Stepped.halted {n : Nat} {s : OnLine (List Sample)} {sink : κ}
    {played : Played (OnLine (List Sample)) κ Unit} (h : Stepped n s sink played)
    (hs : s.Along line config) :
    ∃ e, played.result = .error e ∧ (Halted config e played.state.source ∨
      ∃ before item, Sink.emit before item = (.error e, played.sink)) := by
  induction h with
  | @last s sink e h =>
    refine ⟨e, h, ?_⟩
    obtain ⟨hresult, hstate⟩ | ⟨before, item, e', hrefused, herror⟩ :=
      Trace.play_cases (step.run s) sink
    · rw [hstate]
      exact .inl ((keepsOn_step s hs).2 e (hresult ▸ h))
    · rw [h] at herror
      cases herror
      exact .inr ⟨before, item, hrefused⟩
  | @more n s s' sink sink' told played h hrest ih =>
    apply ih
    obtain ⟨-, hstate⟩ := Trace.play_ok (congrArg Played.result h)
    rw [h] at hstate
    obtain rfl : s' = (step.run s).state := hstate
    exact (keepsOn_step s hs).1

/-- Some samples have gone with every step that a sink lets answer. -/
theorem removed_played {s : OnLine (List Sample)} {sink : κ}
    (h : ((step.run s).play sink).result = .ok ()) :
    Reception.Removed s.source ((step.run s).play sink).state.source := by
  have hless := unread_played_lt h
  obtain ⟨-, hstate⟩ := Trace.play_ok h
  rw [hstate] at hless ⊢
  have halong : s.Along s.source s.decoder.config := ⟨List.suffix_refl _, rfl⟩
  exact Reception.removed_of_suffix (keepsOn_step s halong).1.1 hless

variable {d : Decoder} {hz : Nat}

/-- **Decoding always gets on and finishes.**  Whatever the sink, a step that answers has removed
samples from the line; so has every abandoned attempt at a sync, every byte, broken or not, and
every false start bit.  A line is decoded in at most one step more than it has samples, and the last
of them fails because nothing is left of the line, because of a size that no command has, or with a
refusal of the sink.  So if decoding succeeds, it has read all of the line. -/
theorem decode_progresses (hrate : d.config.samplerate = some hz)
    (hintervals : 1 ≤ d.config.syncIntervals) (line : List Sample) (sink : κ) :
    (∀ (s : OnLine (List Sample)) (sink : κ), ((step.run s).play sink).result = .ok () →
      Reception.Removed s.source ((step.run s).play sink).state.source) ∧
    Reception.Removes Reception.attemptSync (.ok none) ∧
    (∀ b, Reception.Removes Reception.readByte (.ok b)) ∧
    Reception.Removes Reception.readByte (.error .resync) ∧
    Reception.Removes Reception.startBit (.error .resync) ∧
    (∃ n played e, n ≤ line.length + 1 ∧ Stepped n ⟨d, line⟩ sink played ∧
      played.result = .error e ∧
      ((e = .endOfStream ∧ played.state.source = []) ∨ (∃ error, e = .undecodable error) ∨
        ∃ before item, Sink.emit before item = (.error e, played.sink)) ∧
      d.decode line sink = (played.between [d.beginning hz]
        (closing played.result played.state.decoder)).mapResult Halt.untilEnd) ∧
    ((d.decode line sink).result = .ok () →
      (∀ (before : κ) item, (Sink.emit before item).1 ≠ .error .endOfStream) →
      (d.decode line sink).state.source = []) := by
  obtain ⟨n, hle, hstepped⟩ := stepped_run ⟨d, line⟩ sink
  have hdecode : d.decode line sink =
      (((run.run ⟨d, line⟩).play sink).between [d.beginning hz]
        (closing ((run.run ⟨d, line⟩).play sink).result
          ((run.run ⟨d, line⟩).play sink).state.decoder)).mapResult Halt.untilEnd := by
    unfold decode
    rw [hrate]
  generalize (run.run ⟨d, line⟩).play sink = played at hstepped hdecode
  have halong : OnLine.Along line d.config ⟨d, line⟩ := ⟨List.suffix_refl _, rfl⟩
  obtain ⟨e, herror, hhalted⟩ := hstepped.halted halong
  have hreason : (e = .endOfStream ∧ played.state.source = []) ∨ (∃ error, e = .undecodable error) ∨
      ∃ before item, Sink.emit before item = (.error e, played.sink) := by
    rw [← or_assoc]
    exact hhalted.imp_left fun h => h.measured hintervals
  refine ⟨fun _ _ => removed_played, Reception.removes_abandoned, Reception.removes_received,
    Reception.removes_broken, Reception.removes_falseStart,
    ⟨n, played, e, hle, hstepped, herror, hreason, hdecode⟩, ?_⟩
  intro hok hsink
  rw [hdecode] at hok ⊢
  change Halt.untilEnd played.result = .ok () at hok
  change played.state.source = []
  rw [herror] at hok
  -- no halt but the end of the stream counts as a success
  obtain rfl : e = .endOfStream := by
    by_contra hne
    rw [Halt.untilEnd_error hne] at hok
    cases hok
  obtain ⟨-, hleft⟩ | ⟨error, hundecodable⟩ | ⟨before, item, hrefused⟩ := hreason
  · exact hleft
  · cases hundecodable
  · exact absurd (congrArg Prod.fst hrefused) (hsink before item)

/-- The line of one register that is read, up to its last sample. -/
theorem decode_progresses_ldcs :
    let d : Decoder := { config := { samplerate := some 1000000 } }
    let line : List Sample := [⟨0, true⟩, ⟨100, false⟩, ⟨117, true⟩, ⟨133, false⟩, ⟨149, true⟩,
      ⟨166, false⟩, ⟨183, true⟩, ⟨199, false⟩, ⟨215, true⟩, ⟨232, false⟩, ⟨248, true⟩,
      ⟨282, false⟩, ⟨413, true⟩, ⟨463, false⟩, ⟨612, true⟩]
    let run := d.decode line (#[] : Array Annotation)
    d.config.samplerate = some 1000000 ∧ 1 ≤ d.config.syncIntervals ∧
      (∃ n played, n ≤ 16 ∧ Stepped n ⟨d, line⟩ (#[] : Array Annotation) played) ∧
      run.result = .ok () ∧ run.state.source = [] := by
  intro d line run
  have hrate : d.config.samplerate = some 1000000 := rfl
  have hintervals : 1 ≤ d.config.syncIntervals := by decide
  have hok : run.result = .ok () := by decide +kernel
  obtain ⟨-, -, -, -, -, ⟨n, played, _, hle, hstepped, -⟩, hfinished⟩ :=
    decode_progresses hrate hintervals line (#[] : Array Annotation)
  refine ⟨hrate, hintervals, ⟨n, played, hle, hstepped⟩, hok, hfinished hok ?_⟩
  intro before item h
  cases h

end Endings

end Decoder

end Updi

end BusDecode
