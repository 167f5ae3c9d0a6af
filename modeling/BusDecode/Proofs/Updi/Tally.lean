import BusDecode.Proofs.Accounting
import BusDecode.Proofs.Messages
import BusDecode.Proofs.Updi.Order

/-!
# What a UPDI decoder counts

The counts of a decoder can be read off what it says: syncs and commands off its annotations, broken
frames off its warnings and, where a start bit turned out to be none, off its journal.  Between
raising a count and saying why, some parts read on, and an attempt at a sync holds back all it says
until it has succeeded; so what moves on counts nothing (`Passing`), and each part that counts is
balanced as a whole (`Balanced`).
-/

set_option autoImplicit false

namespace BusDecode

namespace Updi

open Source (Reports)

/-! ## Counting -/

/-- What is written of a further round of an LD or ST. -/
def Continues (a : Annotation) : Prop :=
  a.Begins "... <- " ∨ a.Begins "..., "

instance (a : Annotation) : Decidable (Continues a) :=
  inferInstanceAs (Decidable (_ ∨ _))

def syncCount (xs : List Annotation) : Nat :=
  xs.countP fun a => a.row = "sync"

/-- Commands, without the further rounds of an LD or ST. -/
def commandCount (xs : List Annotation) : Nat :=
  xs.countP fun a => a.row = "updi" ∧ ¬Continues a

/-- Warnings of a missing stop bit. -/
def frameErrorCount (xs : List Annotation) : Nat :=
  xs.countP fun a => a.row = "warnings" ∧ a.text = "Frame error"

/-- How the journal says that a start bit was none. -/
def falseStart : String :=
  "False start bit at "

def falseStartCount (name : String) (es : List Event) : Nat :=
  es.countP fun e => e.Says name falseStart

theorem syncCount_append (xs ys : List Annotation) :
    syncCount (xs ++ ys) = syncCount xs + syncCount ys :=
  List.countP_append

theorem commandCount_append (xs ys : List Annotation) :
    commandCount (xs ++ ys) = commandCount xs + commandCount ys :=
  List.countP_append

theorem frameErrorCount_append (xs ys : List Annotation) :
    frameErrorCount (xs ++ ys) = frameErrorCount xs + frameErrorCount ys :=
  List.countP_append

theorem falseStartCount_append (name : String) (es fs : List Event) :
    falseStartCount name (es ++ fs) = falseStartCount name es + falseStartCount name fs :=
  List.countP_append

/-- The rows that may count. -/
def countedRows : List String :=
  ["sync", "updi", "warnings"]

/-- How much of each there is in what was handed on. -/
structure Counted (xs : List Annotation) (syncs commands frameErrors : Nat) : Prop where
  syncs : syncCount xs = syncs
  commands : commandCount xs = commands
  frameErrors : frameErrorCount xs = frameErrors

section Counts

variable {xs ys : List Annotation} {a : Annotation} {n n' k k' l l' : Nat}

theorem Counted.nil : Counted [] 0 0 0 :=
  ⟨rfl, rfl, rfl⟩

theorem Counted.append (h : Counted xs n k l) (h' : Counted ys n' k' l') :
    Counted (xs ++ ys) (n + n') (k + k') (l + l') where
  syncs := by rw [syncCount_append, h.syncs, h'.syncs]
  commands := by rw [commandCount_append, h.commands, h'.commands]
  frameErrors := by rw [frameErrorCount_append, h.frameErrors, h'.frameErrors]

/-- What counts for nothing makes no difference in front. -/
theorem Counted.prepend (h : Counted xs 0 0 0) (h' : Counted ys n k l) :
    Counted (xs ++ ys) n k l := by
  have hboth := h.append h'
  rwa [Nat.zero_add, Nat.zero_add, Nat.zero_add] at hboth

/-- An annotation in a row of its own kind counts for nothing. -/
theorem Counted.uncounted (h : a.row ∉ countedRows) : Counted [a] 0 0 0 := by
  simp only [countedRows, List.mem_cons, List.not_mem_nil, or_false, not_or] at h
  obtain ⟨hsync, hcommand, hwarning⟩ := h
  exact ⟨by simp [syncCount, hsync], by simp [commandCount, hcommand],
    by simp [frameErrorCount, hwarning]⟩

theorem Counted.sync (h : a.row = "sync") : Counted [a] 1 0 0 :=
  ⟨by simp [syncCount, h], by simp [commandCount, h], by simp [frameErrorCount, h]⟩

theorem Counted.command (h : a.row = "updi") (ha : ¬Continues a) : Counted [a] 0 1 0 :=
  ⟨by simp [syncCount, h], by simp [commandCount, h, ha], by simp [frameErrorCount, h]⟩

theorem Counted.continuation (h : a.row = "updi") (ha : Continues a) : Counted [a] 0 0 0 :=
  ⟨by simp [syncCount, h], by simp [commandCount, ha], by simp [frameErrorCount, h]⟩

theorem Counted.frameError (h : a.row = "warnings") (ha : a.text = "Frame error") :
    Counted [a] 0 0 1 :=
  ⟨by simp [syncCount, h], by simp [commandCount, h], by simp [frameErrorCount, h, ha]⟩

theorem Counted.warning (h : a.row = "warnings") (ha : a.text ≠ "Frame error") :
    Counted [a] 0 0 0 :=
  ⟨by simp [syncCount, h], by simp [commandCount, h], by simp [frameErrorCount, ha]⟩

end Counts

/-! ## Balance -/

/-- From one decoder to a later one each count has risen by what was said in between.  That counts
as said what the journal has of false start bits, if only nobody else wrote there. -/
structure Balanced (quiet : Prop) (d : Decoder) (xs : List Annotation) (es : List Event)
    (d' : Decoder) : Prop where
  name : d'.name = d.name
  syncs : d'.stats.syncs = d.stats.syncs + syncCount xs
  commands : d'.stats.commands = d.stats.commands + commandCount xs
  warned : d.stats.frameErrors + frameErrorCount xs ≤ d'.stats.frameErrors
  frameErrors : quiet → d'.stats.frameErrors =
    d.stats.frameErrors + (frameErrorCount xs + falseStartCount d.name es)

theorem Balanced.refl (quiet : Prop) (d : Decoder) : Balanced quiet d [] [] d :=
  ⟨rfl, rfl, rfl, Nat.le_refl _, fun _ => rfl⟩

theorem Balanced.trans {first later quiet : Prop} {d d' d'' : Decoder} {xs ys : List Annotation}
    {es fs : List Event} (h : Balanced first d xs es d') (h' : Balanced later d' ys fs d'')
    (hfirst : quiet → first) (hlater : quiet → later) :
    Balanced quiet d (xs ++ ys) (es ++ fs) d'' where
  name := h'.name.trans h.name
  syncs := by rw [h'.syncs, h.syncs, syncCount_append, Nat.add_assoc]
  commands := by rw [h'.commands, h.commands, commandCount_append, Nat.add_assoc]
  warned := by
    rw [frameErrorCount_append, ← Nat.add_assoc]
    exact Nat.le_trans (Nat.add_le_add_right h.warned _) h'.warned
  frameErrors hq := by
    rw [h'.frameErrors (hlater hq), h.frameErrors (hfirst hq), h.name, frameErrorCount_append,
      falseStartCount_append, Nat.add_assoc, Nat.add_add_add_comm]

section Sessions

variable {σ : Type} [Source σ Sample]

/-- The line reports nothing that could be taken for a false start bit of the decoder. -/
def Discreet (name : String) (line : σ) : Prop :=
  ∀ e, Reports e line → ¬e.Says name falseStart

theorem discreet_list (name : String) (xs : List Sample) : Discreet name xs :=
  fun e h => absurd h (Source.not_reports_list e xs)

/-- A receiver says that it is one. -/
theorem discreet_receiver (name : String) {r : Receiver Sample} (h : r.journal = []) :
    Discreet name r := by
  intro e he hsays
  have hreceiver : "Receiver - ".toList <+: e.message.toList :=
    (Receiver.reports_named he).resolve_left (h ▸ List.not_mem_nil)
  have hname : "[".toList <+: e.message.toList := (toList_initial_three _ _ _ _).trans hsays
  revert hreceiver hname
  generalize e.message.toList = letters
  rintro ⟨rest, rfl⟩ ⟨rest', hboth⟩
  cases hboth

/-- From one moment to a later one nothing was counted; the journal has no false start bit but what
the line may have reported. -/
structure Passing (s : Session σ) (es : List Event) (t : Session σ) : Prop where
  reports : ∀ e, Reports e t.source → Reports e s.source
  name : t.decoder.name = s.decoder.name
  stats : t.decoder.stats = s.decoder.stats
  told : ∀ e ∈ es, e.Says s.decoder.name falseStart → Reports e s.source

/-- From one decoder on a line to a later one the counts are in balance. -/
structure Audited (d : Decoder) (line : σ) (xs : List Annotation) (es : List Event) (d' : Decoder)
    (line' : σ) : Prop where
  reports : ∀ e, Reports e line' → Reports e line
  balanced : Balanced (Discreet d.name line) d xs es d'

variable {d d' d'' : Decoder} {line line' line'' : σ} {xs ys : List Annotation}
  {es fs : List Event} {s t u : Session σ}

theorem Audited.refl (d : Decoder) (line : σ) : Audited d line [] [] d line :=
  ⟨fun _ h => h, .refl _ d⟩

theorem Audited.trans (h : Audited d line xs es d' line') (h' : Audited d' line' ys fs d'' line'') :
    Audited d line (xs ++ ys) (es ++ fs) d'' line'' where
  reports e he := h.reports e (h'.reports e he)
  balanced := by
    refine h.balanced.trans h'.balanced id fun hline e he => ?_
    rw [h.balanced.name]
    exact hline e (h.reports e he)

/-- The sessions' decoders on their lines. -/
def Session.Audited (s : Session σ) (xs : List Annotation) (es : List Event) (t : Session σ) :
    Prop :=
  Updi.Audited s.decoder s.source xs es t.decoder t.source

instance : Script.Linked (Session.Audited : Session σ → _) :=
  ⟨fun s => .refl s.decoder s.source, Audited.trans⟩

theorem Passing.refl (s : Session σ) : Passing s [] s :=
  ⟨fun _ h => h, rfl, rfl, nofun⟩

theorem Passing.trans (h : Passing s es t) (h' : Passing t fs u) : Passing s (es ++ fs) u where
  reports e he := h.reports e (h'.reports e he)
  name := h'.name.trans h.name
  stats := h'.stats.trans h.stats
  told := by
    refine List.forall_mem_append.2 ⟨h.told, fun e he hsays => ?_⟩
    exact h.reports e (h'.told e he (h.name ▸ hsays))

theorem Passing.quiet (h : Passing s es t) (hline : Discreet s.decoder.name s.source) :
    falseStartCount s.decoder.name es = 0 := by
  rw [falseStartCount, List.countP_eq_zero]
  intro e he hsays
  exact hline e (h.told e he (of_decide_eq_true hsays)) (of_decide_eq_true hsays)

/-- A count that is raised by what was handed on. -/
theorem Passing.settled {n k l : Nat} (h : Passing s es t) (hxs : Counted xs n k l)
    (hsource : u.source = t.source) (hname : u.decoder.name = t.decoder.name)
    (hsyncs : u.decoder.stats.syncs = t.decoder.stats.syncs + n)
    (hcommands : u.decoder.stats.commands = t.decoder.stats.commands + k)
    (hframeErrors : u.decoder.stats.frameErrors = t.decoder.stats.frameErrors + l) :
    s.Audited xs es u where
  reports e he := h.reports e (hsource ▸ he)
  balanced := by
    refine ⟨hname.trans h.name, ?_, ?_, ?_, fun hline => ?_⟩
    · rw [hsyncs, h.stats, hxs.syncs]
    · rw [hcommands, h.stats, hxs.commands]
    · exact Nat.le_of_eq (by rw [hframeErrors, h.stats, hxs.frameErrors])
    · rw [hframeErrors, h.stats, hxs.frameErrors, h.quiet hline, Nat.add_zero]

/-- What was passed counts for nothing, nor does what was handed on. -/
theorem Passing.audited (h : Passing s es t) (hxs : Counted xs 0 0 0) : s.Audited xs es t :=
  h.settled hxs rfl rfl rfl rfl rfl

/-- A message that is not that of a false start bit. -/
theorem passing_told (s : Session σ) (severity : Severity) {message other : String}
    (h : other.toList <+: message.toList)
    (hapart : Apart falseStart other) :
    Passing s [.told s.decoder.name severity message] s := by
  refine ⟨fun _ he => he, rfl, rfl, ?_⟩
  simpa using fun hsays => absurd hsays (Event.not_says_told h hapart)

instance : Script.Linked fun (s : Session σ) xs es t => Passing s es t ∧ Counted xs 0 0 0 :=
  ⟨fun s => ⟨.refl s, .nil⟩, fun h h' => ⟨h.1.trans h'.1, h.2.append h'.2⟩⟩

/-! ## Start bits -/

/-- Whether what was being received was dropped, to look for a sync again. -/
def givenUp {α : Type} : Except Interrupt α → Bool
  | .error .resync => true
  | _ => false

/-- What is heard of a start bit: that it is false, if it was given up. -/
structure StartTold {α : Type} (r : Except Interrupt α) (s : Session σ) (xs : List Annotation)
    (es : List Event) (t : Session σ) : Prop where
  audited : s.Audited xs es t
  warned : frameErrorCount xs = 0
  counted : t.decoder.stats.frameErrors =
    s.decoder.stats.frameErrors + if givenUp r then 1 else 0
  falseStarts : Discreet s.decoder.name s.source →
    falseStartCount s.decoder.name es = if givenUp r then 1 else 0

variable {α : Type} {r : Except Interrupt α}

theorem StartTold.after (h : Passing s es t) (hxs : Counted xs 0 0 0) (h' : StartTold r t ys fs u) :
    StartTold r s (xs ++ ys) (es ++ fs) u where
  audited := (h.audited hxs).trans h'.audited
  warned := by rw [frameErrorCount_append, hxs.frameErrors, h'.warned]
  counted := by rw [h'.counted, h.stats]
  falseStarts hline := by
    have hlater := h'.falseStarts (h.name.symm ▸ fun e he => hline e (h.reports e he))
    rw [falseStartCount_append, h.quiet hline, Nat.zero_add, ← h.name]
    exact hlater

theorem Passing.startTold (h : Passing s es t) (hxs : Counted xs 0 0 0)
    (hr : givenUp r = false) : StartTold r s xs es t where
  audited := h.audited hxs
  warned := hxs.frameErrors
  counted := by
    rw [h.stats, hr]
    rfl
  falseStarts hline := by
    rw [h.quiet hline, hr]
    rfl

end Sessions

namespace Reception

open Script (Links Leaves)

variable {σ ε : Type} [Source σ Sample]

/-! ## What counts nothing -/

/-- To go on without handing anything on. -/
abbrev Silent {α : Type} (m : Reception σ ε α) : Prop :=
  Links (fun s xs es t => Passing s es t ∧ xs = []) m

/-- To go on without counting anything. -/
abbrev Unmoved {α : Type} (m : Reception σ ε α) : Prop :=
  Links (fun s xs es t => Passing s es t ∧ Counted xs 0 0 0) m

/-- To keep the counts in balance. -/
abbrev Audits {α : Type} (m : Reception σ ε α) : Prop :=
  Links Session.Audited m

theorem Silent.unmoved {α : Type} {m : Reception σ ε α} (h : Silent m) : Unmoved m :=
  h.imp fun _ _ _ _ ⟨hpassing, hxs⟩ => ⟨hpassing, hxs ▸ .nil⟩

theorem Unmoved.audits {α : Type} {m : Reception σ ε α} (h : Unmoved m) : Audits m :=
  h.imp fun _ _ _ _ ⟨hpassing, hxs⟩ => hpassing.audited hxs

theorem silent_move {step : LineCursor → σ → Except Halt Bool × LineCursor × σ}
    (h : ∀ c line e, Reports e (step c line).2.2 → Reports e line) : Silent (move step) := by
  refine .lift fun s => ⟨⟨?_, rfl, rfl, ?_⟩, rfl⟩
  · exact fun e he => h _ _ e (.later he)
  · exact fun e he _ => h _ _ e (.now he)

theorem silent_waitEdge (edge : Edge) (budget : Option Nat) :
    Silent (waitEdge edge budget : Reception σ Halt Bool) :=
  silent_move fun _ _ _ => LineCursor.reports_waitEdge

theorem silent_skip (count : Nat) : Silent (skip count : Reception σ Halt Bool) :=
  silent_move fun _ _ _ => LineCursor.reports_skip

theorem unmoved_emit {f : Session σ → Annotation} {row : String} (hf : ∀ s, (f s).row = row)
    (hrow : row ∉ countedRows) : Unmoved (Script.emit f : Reception σ ε Unit) :=
  .emit fun s => ⟨.refl s, .uncounted (hf s ▸ hrow)⟩

/-- Bookkeeping. -/
theorem unmoved_modify {f : Session σ → Session σ} (hsource : ∀ s, (f s).source = s.source)
    (hname : ∀ s, (f s).decoder.name = s.decoder.name)
    (hstats : ∀ s, (f s).decoder.stats = s.decoder.stats) :
    Unmoved (Script.modify f : Reception σ ε Unit) :=
  .modify fun s => ⟨⟨fun _ he => hsource s ▸ he, hname s, hstats s, nofun⟩, .nil⟩

theorem unmoved_tell (other : String) {severity : Severity} {message : Session σ → String}
    (h : ∀ s, other.toList <+: (message s).toList)
    (hapart : Apart falseStart other) :
    Unmoved (tell severity message : Reception σ ε Unit) :=
  .note fun s => ⟨passing_told s severity (h s) hapart, .nil⟩

theorem unmoved_sampleBit : Unmoved (sampleBit : Reception σ Halt Bool) :=
  .bind (.read _) fun _ => .bind (silent_skip _).unmoved fun _ =>
    .bind (silent_skip _).unmoved fun _ => .answer _

theorem unmoved_dataBit (label : Option String) :
    Unmoved (dataBit label : Reception σ Halt Bool) :=
  .bind (.read _) fun _ => .bind unmoved_sampleBit fun _ =>
    .bind (unmoved_emit (fun _ => rfl) (by decide : "data-bit" ∉ countedRows)) fun _ => .answer _

theorem unmoved_dataBits (n : Nat) : Unmoved (dataBits n : Reception σ Halt (List Bool)) := by
  induction n with
  | zero => exact .answer _
  | succ n ih => exact .bind (unmoved_dataBit _) fun _ => .bind ih fun _ => .answer _

/-! ## Bits and bytes -/

/-- To go on without raising a count; what is handed on depends on how that ends. -/
abbrev Yields {α : Type} (C : Except ε α → List Annotation → Prop) (m : Reception σ ε α) : Prop :=
  ∀ s, Leaves m s fun r t xs es => Passing s es t ∧ C r xs

/-- It makes no difference if something that counts for nothing was handed on before; and failing
demands no more than that. -/
structure Lenient {α : Type} (C : Except ε α → List Annotation → Prop) : Prop where
  prepend : ∀ {r xs ys}, Counted xs 0 0 0 → C r ys → C r (xs ++ ys)
  fail : ∀ {e xs}, Counted xs 0 0 0 → C (.error e) xs

theorem Yields.after {α α' : Type} {C : Except ε α' → List Annotation → Prop} (hC : Lenient C)
    {m : Reception σ ε α} {k : α → Reception σ ε α'} (hm : Unmoved m)
    (hk : ∀ a, Yields C (k a)) : Yields C (m >>= k) := by
  refine fun s => .bind ((hm.leaves s).mono fun r t xs es ⟨h, hxs⟩ => ⟨fun a _ => ?_, ?_⟩)
  · exact (hk a t).mono fun r' u ys fs ⟨h', hys⟩ => ⟨h.trans h', hC.prepend hxs hys⟩
  · exact fun e _ => ⟨h, hC.fail hxs⟩

/-- What the stop bits hand on: a warning, if they are missing. -/
def Stopped (r : Except ε Bool) (xs : List Annotation) : Prop :=
  Counted xs 0 0 (if r matches .ok false then 1 else 0)

theorem lenient_stopped : Lenient (Stopped : Except ε Bool → List Annotation → Prop) where
  prepend := .prepend
  fail h := h

theorem yields_stopBits : Yields Stopped (stopBits : Reception σ Halt Bool) := by
  unfold stopBits
  refine .after lenient_stopped (.read _) fun start => ?_
  refine .after lenient_stopped (.read _) fun period => ?_
  refine .after lenient_stopped (silent_skip _).unmoved fun level => ?_
  refine .after lenient_stopped ?_ fun _ => ?_
  · exact unmoved_modify (fun _ => rfl) (fun _ => rfl) fun _ => rfl
  · cases level with
    | true =>
      have hrow : "stop-bit" ∉ countedRows := by decide
      exact fun s => ⟨.refl s, .uncounted hrow⟩
    | false => exact fun s => ⟨.refl s, .frameError rfl rfl⟩

/-- Going on after a part that can only halt. -/
theorem orHalt_startTold {α α' : Type} {m : Reception σ Halt α'} {k : α' → Reception σ Interrupt α}
    (hm : Unmoved m) (hk : ∀ a t, Leaves (k a) t fun r u xs es => StartTold r t xs es u)
    (s : Session σ) : Leaves (m.orHalt >>= k) s fun r t xs es => StartTold r s xs es t := by
  refine .bind (.mapError ((hm.leaves s).mono fun r t xs es ⟨h, hxs⟩ => ⟨fun a _ => ?_, ?_⟩))
  · exact (hk a t).mono fun _ _ _ _ h' => h'.after h hxs
  · rintro e he
    cases r with
    | ok a => cases he
    | error halt =>
      cases he
      exact h.startTold hxs rfl

/-- A start bit that is given up tells so, and is counted. -/
theorem leaves_startBit (s : Session σ) :
    Leaves startBit s fun r t xs es => StartTold r s xs es t := by
  unfold startBit
  refine orHalt_startTold (silent_waitEdge _ _).unmoved (fun _ t => ?_) s
  refine .read_bind (.read_bind (orHalt_startTold (silent_skip _).unmoved (fun high u => ?_) t))
  refine .ite (fun _ => ?_) fun _ => ?_
  · -- the message, the count and the failure
    have hsays : Event.Says u.decoder.name falseStart
        (.told u.decoder.name .debug s!"False start bit at {t.now}") :=
      Event.says_told.2 (toList_initial _ _)
    have hone : falseStartCount u.decoder.name
        [.told u.decoder.name .debug s!"False start bit at {t.now}"] = 1 := by
      rw [falseStartCount, List.countP_singleton, if_pos (decide_eq_true hsays)]
    refine ⟨⟨fun _ he => he, ⟨rfl, rfl, rfl, Nat.le_succ _, fun _ => ?_⟩⟩, rfl, rfl, fun _ => hone⟩
    exact congrArg (fun n => u.decoder.stats.frameErrors + (0 + n)) hone.symm
  · have hrow : "start-bit" ∉ countedRows := by decide
    refine orHalt_startTold (silent_skip _).unmoved (fun _ v => ?_) u
    exact (Passing.refl v).startTold (.uncounted hrow) rfl

theorem audits_startBit : Audits (startBit : Reception σ Interrupt Nat) :=
  fun s => (leaves_startBit s).audited

/-- A broken frame is dropped once it has been warned of, told and counted. -/
theorem audits_readByte : Audits (readByte : Reception σ Interrupt UInt8) := by
  refine .bind audits_startBit fun start => ?_
  refine .bind (.mapError (unmoved_dataBits 8).audits _) fun bits => .of_leaves fun s => ?_
  refine .bind (.mapError ((yields_stopBits s).mono fun r t xs es ⟨h, hxs⟩ => ⟨?_, ?_⟩))
  · rintro stopped hr
    obtain rfl : r = .ok stopped := by
      cases r with
      | error e => cases hr
      | ok a => rw [Except.ok.inj hr]
    cases stopped with
    | true =>
      have hmark : Unmoved (Script.modify fun s : Session σ => { s with byteStart := start } :
          Reception σ Interrupt Unit) :=
        unmoved_modify (fun _ => rfl) (fun _ => rfl) fun _ => rfl
      have htell : Unmoved (tell .trace fun _ : Session σ =>
          s!"Byte {Numeral.hexByte (Bits.byte bits)} at {start}" : Reception σ Interrupt Unit) :=
        unmoved_tell "Byte " (fun _ => toList_initial_three _ _ _ _) (by decide)
      have hput : Unmoved (putByte start (Bits.byte bits) : Reception σ Interrupt Unit) :=
        unmoved_emit (fun _ => rfl) (by decide : "byte-value" ∉ countedRows)
      have hrest := Links.bind hmark fun _ => .bind htell fun _ => .bind hput fun _ =>
        .answer (Bits.byte bits)
      exact (hrest.leaves t).mono fun _ _ _ _ ⟨h', hys⟩ =>
        (h.audited hxs).trans (h'.audited hys)
    | false =>
      have htold := passing_told t .debug
        (toList_initial "Frame error in byte at " (toString start)) (by decide)
      exact (h.trans htold).settled (hxs.append .nil) rfl rfl rfl rfl rfl
  · rintro e he
    cases r with
    | ok a => cases he
    | error halt => exact h.audited hxs

/-! ## Syncs -/

theorem unmoved_measureBits (maxBitTime n : Nat) :
    Unmoved (measureBits maxBitTime n : Reception σ Halt Bool) := by
  induction n with
  | zero => exact .answer _
  | succ n ih =>
    refine .bind (.read _) fun _ => .bind (silent_waitEdge _ _).unmoved fun _ =>
      .bind (.read _) fun _ => .ite (.bind ?_ fun _ => .answer _) (.bind ?_ fun _ => ih)
    · exact unmoved_tell "Sync abandoned: " (fun _ => toList_initial _ _) (by decide)
    · exact unmoved_emit (fun _ => rfl) (by decide : "data-bit" ∉ countedRows)

/-- What a sync that was found hands on: one sync, and nothing else that counts. -/
def Found (r : Except ε Bool) (xs : List Annotation) : Prop :=
  r = .ok true → Counted xs 1 0 0

theorem lenient_found : Lenient (Found : Except ε Bool → List Annotation → Prop) where
  prepend h h' hr := h.prepend (h' hr)
  fail _ := nofun

/-- Giving up is not counted here. -/
theorem leaves_abandoned (reason : String) (s : Session σ) :
    Leaves (do
      tellAbandoned reason
      return false : Reception σ Halt Bool) s fun r t _ es => Passing s es t ∧ r ≠ .ok true := by
  have htold := passing_told s .debug
    (toList_initial "Sync abandoned: " (toString reason)) (by decide)
  exact ⟨htold, nofun⟩

theorem yields_finishSync (start : Nat) :
    Yields Found (finishSync start : Reception σ Halt Bool) := by
  unfold finishSync
  refine .after lenient_found (unmoved_dataBit _) fun _ s => ?_
  refine .bind ((yields_stopBits s).mono fun r t xs es ⟨h, hxs⟩ => ⟨?_, fun _ _ => ⟨h, nofun⟩⟩)
  rintro stopped rfl
  cases stopped with
  | true =>
    have hbyte : Counted [⟨.byte, "byte-value", start, t.stop, [Numeral.hexByte 0x55]⟩] 0 0 0 :=
      .uncounted (by decide : "byte-value" ∉ countedRows)
    have hsync : Counted [⟨.field, "sync", start, t.stop, ["SYNC"]⟩] 1 0 0 := .sync rfl
    exact ⟨h.trans (.refl t), fun _ => Counted.prepend hxs (hbyte.prepend hsync)⟩
  | false =>
    exact (leaves_abandoned _ t).mono fun r u ys fs ⟨h', hr⟩ =>
      ⟨h.trans h', fun htrue => absurd htrue hr⟩

theorem yields_adoptPeriod (start intervals : Nat) :
    Yields Found (adoptPeriod start intervals : Reception σ Halt Bool) := by
  refine .after lenient_found (.read _) fun now s => .ite (fun _ => ⟨.refl s, nofun⟩) fun _ =>
    .ite (fun _ => ⟨.refl s, nofun⟩) fun _ => ?_
  have hperiod : ∀ period : Nat, Unmoved (Script.modify fun s : Session σ =>
      { s with decoder.bitTime := period } : Reception σ Halt Unit) :=
    fun _ => unmoved_modify (fun _ => rfl) (fun _ => rfl) fun _ => rfl
  exact Yields.after lenient_found (hperiod _) (fun _ => yields_finishSync start) s

theorem yields_measureSync (start : Nat) :
    Yields Found (measureSync start : Reception σ Halt Bool) := by
  refine .after lenient_found (.read _) fun config => ?_
  refine .after lenient_found (silent_waitEdge _ _).unmoved fun _ => ?_
  refine .after lenient_found (.read _) fun now s => .ite (fun _ => ?_) fun _ => ?_
  · exact (leaves_abandoned _ s).mono fun _ _ _ _ ⟨h, hr⟩ => ⟨h, fun htrue => absurd htrue hr⟩
  · refine Yields.after lenient_found ?_ (fun _ => ?_) s
    · exact unmoved_emit (fun _ => rfl) (by decide : "start-bit" ∉ countedRows)
    · refine .after lenient_found (unmoved_measureBits _ _) fun credible t => ?_
      exact .ite (fun _ => yields_adoptPeriod start _ t) fun _ => ⟨.refl t, nofun⟩

/-- An attempt hands on a sync and counts it, or hands on nothing. -/
theorem leaves_trySync (s : Session σ) :
    Leaves trySync s fun r t xs es => s.Audited xs es t ∧
      (r = .ok false → xs = [] ∧ t.decoder.stats = s.decoder.stats) := by
  unfold trySync
  refine .bind (((silent_waitEdge _ _).leaves s).mono fun r t xs es ⟨h, hxs⟩ => ?_)
  subst hxs
  refine ⟨fun _ _ => ?_, fun _ _ => ⟨h.audited .nil, nofun⟩⟩
  refine .read_bind (.modify_bind (.bind (.withhold ?_)))
  have hframe : Passing s es { t with frameEnd := t.now } :=
    ⟨h.reports, h.name, h.stats, h.told⟩
  refine (yields_measureSync t.now { t with frameEnd := t.now }).mono fun r u ys fs ⟨h', hys⟩ => ?_
  refine ⟨fun hr => ⟨?_, ?_⟩, fun hr => ⟨?_, ?_⟩⟩
  · rintro accepted haccepted
    obtain rfl : accepted = true := Except.ok.inj (haccepted.symm.trans hr)
    have hlead : ∀ d : Decoder, "Sync at ".toList <+: s!"Sync at {t.now}: {speed d}".toList :=
      fun _ => toList_initial_three _ _ _ _
    have htold := passing_told u .debug
      (hlead { u.decoder with
        syncStart := t.now, stats.syncs := u.decoder.stats.syncs + 1 }) (by decide)
    have hcounted := (hys hr).append .nil
    exact ⟨(hframe.trans (h'.trans htold)).settled hcounted rfl rfl rfl rfl rfl, nofun⟩
  · intro e he
    cases he.symm.trans hr
  · rintro accepted haccepted
    obtain rfl : accepted = false := by
      cases accepted with
      | false => rfl
      | true => exact absurd haccepted hr
    have hpassed := hframe.trans (h'.trans (.refl u))
    exact ⟨hpassed.audited .nil, fun _ => ⟨rfl, hpassed.stats⟩⟩
  · intro e _
    exact ⟨(hframe.trans h').audited .nil, nofun⟩

/-- An attempt that fails is counted as abandoned, and as nothing else. -/
theorem leaves_attemptSync (s : Session σ) :
    Leaves attemptSync s fun r t xs es => s.Audited xs es t ∧
      (r = .ok none → xs = [] ∧ t.decoder.stats =
        { s.decoder.stats with syncAbandoned := s.decoder.stats.syncAbandoned + 1 }) := by
  unfold attemptSync
  refine .bind ((leaves_trySync s).mono fun r t xs es ⟨h, hfailed⟩ => ⟨?_, fun _ _ => ⟨h, nofun⟩⟩)
  rintro accepted rfl
  cases accepted with
  | true => exact ⟨h.trans (.refl t.decoder t.source), nofun⟩
  | false =>
    obtain ⟨rfl, hstats⟩ := hfailed rfl
    have hcount : Session.Audited t [] []
        (t.count fun c => { c with syncAbandoned := c.syncAbandoned + 1 }) :=
      (Passing.refl t).settled .nil rfl rfl rfl rfl rfl
    refine ⟨h.trans hcount, fun _ => ⟨rfl, ?_⟩⟩
    change { t.decoder.stats with syncAbandoned := t.decoder.stats.syncAbandoned + 1 } = _
    rw [hstats]

theorem audits_sync : Audits (sync : Reception σ Halt Unit) :=
  .loop (fun s => (leaves_attemptSync s).1) _ _

/-! ## Commands -/

theorem audits_putField {row : String} (hrow : row ∉ countedRows) (start : Session σ → Nat)
    (texts : List String) : Audits (putField row start texts : Reception σ ε Unit) :=
  fun s => (Passing.refl s).audited (.uncounted hrow)

/-- A warning that is not one of a missing stop bit. -/
theorem audits_putWarning (start : Session σ → Nat) {text lead : String}
    (h : lead.toList <+: text.toList) (hlead : ¬lead.toList <+: "Frame error".toList) :
    Audits (putWarning start text : Reception σ ε Unit) := by
  refine fun s => (Passing.refl s).audited (.warning rfl ?_)
  rintro (rfl : text = "Frame error")
  exact hlead h

theorem audits_tell (lead : String) {severity : Severity} {message : Session σ → String}
    (h : ∀ s, lead.toList <+: (message s).toList)
    (hapart : Apart falseStart lead) :
    Audits (tell severity message : Reception σ ε Unit) :=
  (unmoved_tell lead h hapart).audits

/-- How the further rounds of an LD and an ST are written. -/
def roundLeads : List String :=
  ["... <- ", "..., "]

/-- What begins like this is not a further round. -/
def FirstRound (lead : String) : Prop :=
  ∀ other ∈ roundLeads, Apart other lead

instance (lead : String) : Decidable (FirstRound lead) :=
  inferInstanceAs (Decidable (∀ other ∈ roundLeads, _))

theorem audits_putCommand {name : String} (operands : String)
    (hname : FirstRound (name ++ " ")) :
    Audits (putCommand name operands : Reception σ ε Unit) := by
  intro s
  have hcounted : Counted [⟨.command, "updi", s.commandStart.getD s.valueStart, s.stop,
      [s!"{name} {operands}", name]⟩] 0 1 0 := by
    refine .command rfl ?_
    rintro (hlead | hlead)
    · exact Annotation.not_begins rfl (hname _ (by decide)) hlead
    · exact Annotation.not_begins rfl (hname _ (by decide)) hlead
  exact (Passing.refl s).settled hcounted rfl rfl rfl rfl rfl

theorem audits_putRound {name : String} (operands lead again data : String)
    (hname : FirstRound (name ++ " ")) (hlead : lead ∈ roundLeads) :
    Audits (putRound name operands (lead ++ again) data : Reception σ ε Unit) := by
  refine .bind (.read _) fun start => ?_
  cases start with
  | some _ => exact audits_putCommand operands hname
  | none =>
    intro s
    refine (Passing.refl s).audited (.continuation rfl ?_)
    simp only [roundLeads, List.mem_cons, List.not_mem_nil, or_false] at hlead
    rcases hlead with rfl | rfl
    · exact .inl <| Annotation.begins_of_text rfl
    · exact .inr <| Annotation.begins_of_text rfl

theorem audits_unknownOpcode (cmd : UInt8) :
    Audits (unknownOpcode cmd : Reception σ ε Unit) := by
  refine .bind (audits_tell "Unknown opcode " (fun _ => toList_initial _ _) (by decide)) fun _ => ?_
  refine .bind (audits_putField (by decide) _ _) fun _ => ?_
  exact audits_putWarning _ (toList_initial "Unknown opcode " _) (by decide)

theorem audits_markValue : Audits (markValue : Reception σ ε Unit) :=
  fun s => (Passing.refl s).settled .nil rfl rfl rfl rfl rfl

theorem audits_readSized (size : Nat) (label : String) :
    Audits (readSized size label : Reception σ Interrupt Value) := by
  unfold readSized
  split
  · exact .bind audits_readByte fun _ => .bind audits_markValue fun _ => .answer _
  · exact .bind audits_readByte fun _ => .bind audits_markValue fun _ =>
      .bind audits_readByte fun _ => .answer _
  · exact .fail _

theorem audits_readValue (size : Nat) {row : String} (hrow : row ∉ countedRows) (label : String) :
    Audits (readValue size row label : Reception σ Interrupt Value) :=
  .bind (audits_readSized size label) fun _ => .bind (audits_putField hrow _ _) fun _ => .answer _

theorem audits_readAck : Audits (readAck : Reception σ Interrupt Unit) := by
  refine .bind audits_readByte fun value => .bind (audits_putField (by decide) _ _) fun _ => ?_
  refine .ite (.answer _) ?_
  exact audits_putWarning _ (toList_initial "Expected ACK, got " _) (by decide)

theorem audits_readRest (n : Nat) :
    Audits (readBlock.readRest n : Reception σ Interrupt (List UInt8)) := by
  induction n with
  | zero => exact .answer _
  | succ n ih => exact .bind audits_readByte fun _ => .bind ih fun _ => .answer _

theorem audits_readBlock (n : Nat) :
    Audits (readBlock n : Reception σ Interrupt (List UInt8)) := by
  cases n with
  | zero => exact .answer _
  | succ n =>
    exact .bind audits_readByte fun _ => .bind audits_markValue fun _ =>
      .bind (audits_readRest n) fun _ => .answer _

theorem audits_ld (cmd : UInt8) : Audits (ld cmd : Reception σ Interrupt Unit) := by
  refine .bind (audits_readValue _ (by decide) _) fun _ => ?_
  split
  · exact audits_putRound _ "... <- " _ _ (by decide) (by decide)
  · exact audits_putWarning _ (toList_initial "LD reserved pointer mode " _) (by decide)

theorem audits_st (cmd : UInt8) : Audits (st cmd : Reception σ Interrupt Unit) := by
  refine .bind (audits_readValue _ (by decide) _) fun _ => ?_
  split
  · refine .bind audits_readAck fun _ => ?_
    exact audits_putRound _ "..., " _ _ (by decide) (by decide)
  · exact audits_putWarning _ (List.prefix_refl _) (by decide)

theorem audits_key (cmd : UInt8) : Audits (key cmd : Reception σ Interrupt Unit) := by
  unfold key
  split
  · exact .bind (audits_readBlock _) fun _ => .bind (audits_putField (by decide) _ _) fun _ =>
      audits_putCommand _ (by decide)
  · exact .fail _

theorem audits_readSib : Audits (readSib : Reception σ Interrupt Unit) := by
  refine .bind (audits_readBlock _) fun _ => .bind (audits_putField (by decide) _ _) fun _ => ?_
  split
  · exact audits_putCommand _ (by decide)
  · rename_i e he
    have hlead := SystemInfo.parse_named he
    exact .bind (audits_tell "SIB " (fun _ => hlead) (by decide)) fun _ =>
      .bind (audits_putWarning _ hlead (by decide)) fun _ => audits_putCommand _ (by decide)

theorem audits_payload {cmd : UInt8} {op : Opcode} {body : Reception σ Interrupt Unit}
    (h : payload? cmd op = some body) : Audits body := by
  have hdata : "updi-data" ∉ countedRows := by decide
  have haddr : "updi-addr" ∉ countedRows := by decide
  cases op <;> cases h
  · exact .bind (audits_readValue _ haddr _) fun _ => .bind (audits_readValue _ hdata _) fun _ =>
      audits_putCommand _ (by decide)
  · exact audits_ld cmd
  · exact .bind (audits_readValue _ haddr _) fun _ => .bind audits_readAck fun _ =>
      .bind (audits_readValue _ hdata _) fun _ => .bind audits_readAck fun _ =>
        audits_putCommand _ (by decide)
  · exact audits_st cmd
  · exact .bind (audits_readValue _ hdata _) fun _ => audits_putCommand _ (by decide)
  · exact .bind (audits_readValue _ hdata _) fun _ => audits_putCommand _ (by decide)
  · exact audits_key cmd
  · exact audits_readSib

/-- What has no command start any more, or one again, has counted nothing by that. -/
theorem audits_commandStart (f : Session σ → Option Nat) :
    Audits (Script.modify fun s => { s with commandStart := f s } : Reception σ ε Unit) :=
  fun s => (Passing.refl s).settled .nil rfl rfl rfl rfl rfl

theorem audits_repeated (count : Nat) (cmd : UInt8) :
    Audits (repeated count cmd : Reception σ Interrupt Unit) := by
  unfold repeated
  split
  · exact audits_unknownOpcode cmd
  · split
    · have hlead := List.prefix_refl "Nested REPEAT".toList
      refine .bind (audits_tell "Nested REPEAT" (fun _ => hlead) (by decide)) fun _ => ?_
      exact .bind (audits_putField (by decide) _ _) fun _ =>
        audits_putWarning _ (List.prefix_refl _) (by decide)
    · rename_i body hbody
      exact .bind (audits_putField (by decide) _ _) fun _ =>
        .times (.bind (audits_payload hbody) fun _ => audits_commandStart _) _

theorem audits_repeatNext (cmd : UInt8) :
    Audits (repeatNext cmd : Reception σ Interrupt Unit) :=
  .bind (audits_readValue _ (by decide) _) fun _ => .bind (audits_putCommand _ (by decide)) fun _ =>
    .bind (.mapError audits_sync _) fun _ => .bind (audits_commandStart _) fun _ =>
      .bind audits_readByte fun _ => audits_repeated _ _

theorem audits_afterSync : Audits (afterSync : Reception σ Interrupt Unit) := by
  refine .bind (audits_commandStart _) fun _ => .bind audits_readByte fun cmd => ?_
  split
  · exact audits_unknownOpcode cmd
  · rename_i op _
    refine .bind ?_ fun _ => .bind (audits_putField (by decide) _ _) fun _ => ?_
    · exact audits_tell "Opcode " (fun _ => toList_initial_three _ _ _ _) (by decide)
    · cases h : (payload? cmd op : Option (Reception σ Interrupt Unit)) with
      | none => exact audits_repeatNext cmd
      | some body => exact audits_payload h

theorem audits_command : Audits (command : Reception σ Halt Unit) := by
  refine .bind audits_sync fun _ => .bind (.attempt audits_afterSync) fun outcome => ?_
  split
  · exact .answer _
  · exact .fail _

end Reception

/-! ## Calls -/

open Script (Links)

namespace Decoder

/-- What is left of a decoder after some calls. -/
def after (d : Decoder) : List Call → Decoder
  | [] => d
  | c :: calls => (d.call c).state.after calls

/-- What was reported in one call after the other. -/
def journal (d : Decoder) : List Call → List Event
  | [] => []
  | c :: calls => (d.call c).events ++ (d.call c).state.journal calls

/-- The decoders on their lines. -/
def OnLine.Audited {σ : Type} [Source σ Sample] (s : OnLine σ) (xs : List Annotation)
    (es : List Event) (t : OnLine σ) : Prop :=
  Updi.Audited s.decoder s.source xs es t.decoder t.source

instance {σ : Type} [Source σ Sample] : Script.Linked (OnLine.Audited : OnLine σ → _) :=
  ⟨fun s => .refl s.decoder s.source, Updi.Audited.trans⟩

variable {σ : Type} [Source σ Sample]

theorem links_step :
    Links OnLine.Audited (step : Script (OnLine σ) Annotation Halt Unit) := by
  intro s
  unfold step
  dsimp only
  split
  · exact Script.Linked.refl s
  · have hcommand := Reception.audits_command (σ := σ) { decoder := s.decoder, source := s.source }
    unfold Script.focus
    dsimp only
    rw [Trace.items_mapState, Trace.events_mapState]
    exact hcommand

theorem links_run :
    Links OnLine.Audited (run : Script (OnLine σ) Annotation Halt Unit) := by
  have hon : Links OnLine.Audited
      (stepOn : Script (OnLine σ) Annotation Empty (Option Halt)) := by
    unfold stepOn
    rw [← bind_pure_comp]
    exact .bind (.attempt links_step) fun _ => .answer _
  intro s
  have hsteps : OnLine.Audited s (steps.run s).items (steps.run s).events (steps.run s).state :=
    Links.loop hon _ _ s
  unfold run
  dsimp only
  rcases hrun : steps.run s with ⟨e | e, t, effects⟩
  · exact e.elim
  · rwa [hrun] at hsteps

end Decoder

/-! ## Lives -/

/-- The line of a call reports nothing that could be taken for a false start bit. -/
def Call.Discreet (name : String) (c : Call) : Prop :=
  have := c.source
  Updi.Discreet name c.line

section Lives

variable {quiet : Prop} {d d' : Decoder} {xs : List Annotation} {es before after : List Event}

/-- Messages before and after that are not of false start bits make no difference. -/
theorem Balanced.between (h : Balanced quiet d xs es d')
    (hbefore : falseStartCount d.name before = 0) (hafter : falseStartCount d.name after = 0) :
    Balanced quiet d xs (before ++ es ++ after) d' := by
  refine { h with frameErrors := fun hquiet => ?_ }
  rw [h.frameErrors hquiet, falseStartCount_append, falseStartCount_append, hbefore, hafter,
    Nat.zero_add, Nat.add_zero]

theorem falseStartCount_told {name : String} {severity : Severity} {message : String}
    (lead : String) (h : lead.toList <+: message.toList)
    (hapart : Apart falseStart lead) :
    falseStartCount name [.told name severity message] = 0 := by
  rw [falseStartCount, List.countP_singleton, if_neg]
  simpa using Event.not_says_told h hapart

theorem falseStartCount_beginning (d : Decoder) (hz : Nat) :
    falseStartCount d.name [d.beginning hz] = 0 :=
  falseStartCount_told "Decoding at " ((toList_initial _ _).trans (toList_initial _ _)) (by decide)

theorem falseStartCount_closing (result : Except Halt Unit) (d : Decoder) :
    falseStartCount d.name (d.closing result) = 0 := by
  have hsummary : falseStartCount d.name [d.summary] = 0 := by
    refine falseStartCount_told "Stopped after " ?_ (by decide)
    exact (toList_initial_three _ _ _ _).trans ((toList_initial _ _).trans (toList_initial _ _))
  unfold Decoder.closing
  split
  · split
    · rfl
    · exact hsummary
  · exact hsummary

/-- A sink that takes everything has all of it. -/
theorem play_unlimited {δ β α : Type} (t : Trace δ β Halt α) (e : Halt) :
    ∃ left, t.play (⟨#[], e, none⟩ : Limited (Array β)) =
      ⟨t.result, t.state, ⟨t.items.toArray, e, left⟩, t.events⟩ := by
  rcases t.play_limited #[] e none with ⟨left, -, hplay⟩ | ⟨_, _, _, _, _, hroom, -⟩
  · exact ⟨left, by rw [hplay, Array.empty_append]⟩
  · cases hroom

/-- The sink of a call that takes everything. -/
def accepting (refusal : Halt) : Limited (Array Annotation) :=
  ⟨#[], refusal, none⟩

section Lines

variable {σ : Type} [Source σ Sample]

theorem step_balanced (d : Decoder) (line : σ) (refusal : Halt) :
    let played := (Decoder.step.run ⟨d, line⟩).play (accepting refusal)
    Balanced (Discreet d.name line) d played.sink.inner.toList played.events
      played.state.decoder := by
  obtain ⟨left, hplay⟩ := play_unlimited (Decoder.step.run ⟨d, line⟩) refusal
  rw [accepting, hplay]
  exact (Decoder.links_step ⟨d, line⟩).balanced

theorem decode_balanced (d : Decoder) (line : σ) (refusal : Halt) :
    let played := d.decode line (accepting refusal)
    Balanced (Discreet d.name line) d played.sink.inner.toList played.events
      played.state.decoder := by
  unfold Decoder.decode
  split
  · exact .refl _ d
  · rename_i hz _
    obtain ⟨left, hplay⟩ := play_unlimited (Decoder.run.run ⟨d, line⟩) refusal
    have hrun := (Decoder.links_run ⟨d, line⟩).balanced
    rw [accepting, hplay]
    refine hrun.between (falseStartCount_beginning d hz) ?_
    rw [← hrun.name]
    exact falseStartCount_closing _ _

end Lines

theorem call_balanced (d : Decoder) (c : Call) (hroom : c.room = none) :
    Balanced (c.Discreet d.name) d (d.call c).sink.inner.toList (d.call c).events
      (d.call c).state := by
  obtain ⟨line, whole, room, refusal⟩ := c
  obtain rfl : room = none := hroom
  cases whole with
  | false => exact step_balanced d line refusal
  | true => exact decode_balanced d line refusal

/-- Over several calls as over one. -/
theorem calls_balanced (calls : List Call) (d : Decoder) (hcalls : ∀ c ∈ calls, c.room = none) :
    Balanced (∀ c ∈ calls, c.Discreet d.name) d (d.told calls) (d.journal calls)
      (d.after calls) := by
  induction calls generalizing d with
  | nil => exact .refl _ d
  | cons c calls ih =>
    have hfirst := call_balanced d c (hcalls c List.mem_cons_self)
    have hrest := ih (d.call c).state fun c' hc' => hcalls c' (List.mem_cons_of_mem _ hc')
    rw [hfirst.name] at hrest
    refine hfirst.trans hrest (fun hquiet => ?_) fun hquiet c' hc' => ?_
    · exact hquiet c List.mem_cons_self
    · exact hquiet c' (List.mem_cons_of_mem _ hc')

/-- **The counts of a decoder are those of what it says.**  After whatever calls there have been as
many syncs and commands as were annotated, and no fewer broken frames than were warned of; the
others are the false start bits in the journal, if no line forges them (`discreet_list`,
`discreet_receiver`).  A start bit that is given up is counted once, without a warning, and noted in
the journal.  An attempt at a sync that fails says nothing, whatever was wrong with its frame, and
is counted as abandoned only. -/
theorem told_counts (name : String) (config : Config) (calls : List Call)
    (hroom : ∀ c ∈ calls, c.room = none) :
    let d : Decoder := { name, config }
    let xs := d.told calls
    let stats := (d.after calls).stats
    (stats.syncs = syncCount xs ∧ stats.commands = commandCount xs ∧
      frameErrorCount xs ≤ stats.frameErrors ∧
      ((∀ c ∈ calls, c.Discreet name) →
        stats.frameErrors = frameErrorCount xs + falseStartCount name (d.journal calls))) ∧
    ∀ {σ : Type} [Source σ Sample] (s : Session σ),
      (let heard := Reception.startBit.run s
        let dropped := if givenUp heard.result then 1 else 0
        frameErrorCount heard.items = 0 ∧
          heard.state.decoder.stats.frameErrors = s.decoder.stats.frameErrors + dropped ∧
          (Discreet s.decoder.name s.source →
            falseStartCount s.decoder.name heard.events = dropped)) ∧
      ((Reception.attemptSync.run s).result = .ok none →
        (Reception.attemptSync.run s).items = [] ∧
        (Reception.attemptSync.run s).state.decoder.stats =
          { s.decoder.stats with syncAbandoned := s.decoder.stats.syncAbandoned + 1 }) := by
  intro d xs stats
  have hlife := calls_balanced calls d hroom
  refine ⟨⟨?_, ?_, ?_, fun hquiet => ?_⟩, fun s => ⟨?_, ?_⟩⟩
  · exact hlife.syncs.trans (Nat.zero_add _)
  · exact hlife.commands.trans (Nat.zero_add _)
  · exact Nat.le_trans (Nat.le_add_left _ _) hlife.warned
  · exact (hlife.frameErrors hquiet).trans (Nat.zero_add _)
  · have hstart := Reception.leaves_startBit s
    exact ⟨hstart.warned, hstart.counted, hstart.falseStarts⟩
  · exact (Reception.leaves_attemptSync s).2

/-- At two samples for each bit: an LDCS and, behind a sync, a low pulse of one sample; then, from a
channel, a sync and a byte without its stop bits. -/
theorem told_counts_dropped :
    let line : List Sample := [⟨0, true⟩, ⟨9, false⟩, ⟨11, true⟩, ⟨13, false⟩, ⟨15, true⟩,
      ⟨17, false⟩, ⟨19, true⟩, ⟨21, false⟩, ⟨23, true⟩, ⟨25, false⟩, ⟨27, true⟩, ⟨31, false⟩,
      ⟨47, true⟩, ⟨53, false⟩, ⟨71, true⟩, ⟨77, false⟩, ⟨79, true⟩, ⟨81, false⟩, ⟨83, true⟩,
      ⟨85, false⟩, ⟨87, true⟩, ⟨89, false⟩, ⟨91, true⟩, ⟨93, false⟩, ⟨95, true⟩, ⟨101, false⟩,
      ⟨102, true⟩]
    let rest : List Sample := [⟨111, false⟩, ⟨113, true⟩, ⟨115, false⟩, ⟨117, true⟩, ⟨119, false⟩,
      ⟨121, true⟩, ⟨123, false⟩, ⟨125, true⟩, ⟨127, false⟩, ⟨129, true⟩, ⟨133, false⟩, ⟨155, true⟩]
    let later : Receiver Sample := { channel := .ofItems rest (some []) }
    let config : Config := { samplerate := some 1000000, maxBitTime := 10 }
    let calls : List Call := [⟨line, true, none, .starved⟩, ⟨later, false, none, .starved⟩]
    let d : Decoder := { name := "updi", config }
    (∀ c ∈ calls, c.room = none) ∧ (∀ c ∈ calls, c.Discreet d.name) ∧
      (d.after calls).stats =
        { syncs := 3, syncAbandoned := 0, frameErrors := 2, commands := 1 } ∧
      syncCount (d.told calls) = 3 ∧ commandCount (d.told calls) = 1 ∧
      frameErrorCount (d.told calls) = 1 ∧ falseStartCount d.name (d.journal calls) = 1 := by
  intro line rest later config calls d
  have hroom : ∀ c ∈ calls, c.room = none :=
    List.forall_mem_cons.2 ⟨rfl, List.forall_mem_singleton.2 rfl⟩
  have hquiet : ∀ c ∈ calls, c.Discreet d.name :=
    List.forall_mem_cons.2 ⟨discreet_list _ _,
      List.forall_mem_singleton.2 (discreet_receiver (r := later) _ rfl)⟩
  have hstats : (d.after calls).stats =
      { syncs := 3, syncAbandoned := 0, frameErrors := 2, commands := 1 } := by decide +kernel
  have hwarned : frameErrorCount (d.told calls) = 1 := by decide +kernel
  obtain ⟨⟨hsyncs, hcommands, -, hframeErrors⟩, -⟩ := told_counts "updi" config calls hroom
  have hdropped : 2 = 1 + falseStartCount d.name (d.journal calls) := by
    rw [← hwarned, ← hframeErrors hquiet]
    exact congrArg Stats.frameErrors hstats.symm
  refine ⟨hroom, hquiet, hstats, ?_, ?_, hwarned, by omega⟩
  · exact hsyncs.symm.trans (congrArg Stats.syncs hstats)
  · exact hcommands.symm.trans (congrArg Stats.commands hstats)

end Lives

end Updi

end BusDecode
