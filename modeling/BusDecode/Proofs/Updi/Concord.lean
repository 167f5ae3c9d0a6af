import BusDecode.Proofs.Later
import BusDecode.Updi.Command

/-!
# What goes on alike on two lines

Sessions are `Staggered` by a delay if reception reads the same from both, at times that are later
by the delay on the second one, and what it writes leaves them so.  A relation of scripts that the
building blocks of reception respect is a `Concord` if skips and the waits for a start bit satisfy
it; then so does whatever is done to receive a command, given that it holds of syncs
(`Concord.afterSync`).  It is a `Unison` if every wait satisfies it, however long; then it does hold
of syncs (`Unison.sync`).  So what holds of whole commands on two lines is shown by looking at the
moves along them.
-/

set_option autoImplicit false

namespace BusDecode

namespace Updi

/-- Reasons for a script to fail among which there are all halts. -/
class Cause (ε : Type) where
  halt : Halt → ε

instance : Cause Halt :=
  ⟨id⟩

instance : Cause Interrupt :=
  ⟨.halt⟩

variable {σ τ : Type}

/-- A change of the counts that takes no notice of how many syncs were abandoned before. -/
def Heedless (f : Stats → Stats) : Prop :=
  ∀ (c : Stats) (more : Nat), f { c with syncAbandoned := c.syncAbandoned + more } =
    { f c with syncAbandoned := (f c).syncAbandoned + more }

/-- A relation of sessions from which reception reads the same, with the times `c` later in the
second one, and that it cannot break by what it writes down. -/
structure Staggered (c : Nat) (r : Session σ → Session τ → Prop) : Prop where
  now : ∀ s t, r s t → t.now = s.now + c
  config : ∀ s t, r s t → s.decoder.config = t.decoder.config
  bitTime : ∀ s t, r s t → s.decoder.bitTime = t.decoder.bitTime
  syncStart : ∀ s t, r s t → Later c s.decoder.syncStart t.decoder.syncStart
  commandStart : ∀ s t, r s t → Option.Rel (Later c) s.commandStart t.commandStart
  byteStart : ∀ s t, r s t → Later c s.byteStart t.byteStart
  valueStart : ∀ s t, r s t → Later c s.valueStart t.valueStart
  frameEnd : ∀ s t, r s t → Later c s.frameEnd t.frameEnd
  setBitTime : ∀ s t n, r s t → r { s with decoder.bitTime := n } { t with decoder.bitTime := n }
  setSyncStart : ∀ s t a b, Later c a b → r s t →
    r { s with decoder.syncStart := a } { t with decoder.syncStart := b }
  setCommandStart : ∀ s t a b, Option.Rel (Later c) a b → r s t →
    r { s with commandStart := a } { t with commandStart := b }
  setByteStart : ∀ s t a b, Later c a b → r s t →
    r { s with byteStart := a } { t with byteStart := b }
  setValueStart : ∀ s t a b, Later c a b → r s t →
    r { s with valueStart := a } { t with valueStart := b }
  setFrameEnd : ∀ s t a b, Later c a b → r s t →
    r { s with frameEnd := a } { t with frameEnd := b }
  count : ∀ s t f, Heedless f → r s t → r (s.count f) (t.count f)

theorem Staggered.stop {c : Nat} {r : Session σ → Session τ → Prop} (h : Staggered c r)
    {s : Session σ} {t : Session τ} (hst : r s t) : t.stop = s.stop + c := by
  rw [Session.stop, Session.stop, h.now s t hst, (h.frameEnd s t hst).max_add]

variable [Source σ Sample] [Source τ Sample]

/-- A relation of scripts that their building blocks respect, skips and waits for a start bit
included.  Messages need only be the same where there is no delay. -/
structure Concord (c : Nat) (r : Session σ → Session τ → Prop)
    (R : ∀ (ε α : Type) [Cause ε], Reception σ ε α → Reception τ ε α → Prop) : Prop
    extends Staggered c r where
  answer : ∀ {ε α : Type} [Cause ε] (a : α), R ε α (pure a) (pure a)
  fail : ∀ {ε α : Type} [Cause ε] (e : ε), R ε α (Script.fail e) (Script.fail e)
  read_bind : ∀ {ε α α' : Type} [Cause ε] {p : α → α → Prop} {f : Session σ → α}
    {g : Session τ → α} {k : α → Reception σ ε α'} {k' : α → Reception τ ε α'},
    (c = 0 → ∀ a b, p a b ↔ a = b) → (∀ s t, r s t → p (f s) (g t)) →
    (∀ a b, p a b → R ε α' (k a) (k' b)) → R ε α' (Script.read f >>= k) (Script.read g >>= k')
  modify : ∀ {ε : Type} [Cause ε] {f : Session σ → Session σ} {g : Session τ → Session τ},
    (∀ s t, r s t → r (f s) (g t)) → R ε Unit (Script.modify f) (Script.modify g)
  tell : ∀ {ε : Type} [Cause ε] (severity : Severity) {f : Session σ → String}
    {g : Session τ → String}, (c = 0 → ∀ s t, r s t → f s = g t) →
    R ε Unit (Reception.tell severity f) (Reception.tell severity g)
  emit : ∀ {ε : Type} [Cause ε] {f : Session σ → Annotation} {g : Session τ → Annotation},
    (∀ s t, r s t → (f s).Later c (g t)) → R ε Unit (Script.emit f) (Script.emit g)
  bind : ∀ {ε α α' : Type} [Cause ε] {m : Reception σ ε α} {m' : Reception τ ε α}
    {f : α → Reception σ ε α'} {f' : α → Reception τ ε α'}, R ε α m m' →
    (∀ a, R ε α' (f a) (f' a)) → R ε α' (m >>= f) (m' >>= f')
  orHalt : ∀ {α : Type} {m : Reception σ Halt α} {m' : Reception τ Halt α}, R Halt α m m' →
    R Interrupt α m.orHalt m'.orHalt
  fall : R Halt Bool (Reception.waitEdge .falling none) (Reception.waitEdge .falling none)
  skip : ∀ count, R Halt Bool (Reception.skip count) (Reception.skip count)

/-- A concord of all that is done to receive: waits of any length, and what is made of them. -/
structure Unison (c : Nat) (r : Session σ → Session τ → Prop)
    (R : ∀ (ε α : Type) [Cause ε], Reception σ ε α → Reception τ ε α → Prop) : Prop
    extends Concord c r R where
  withhold : ∀ {m : Reception σ Halt Bool} {m' : Reception τ Halt Bool}, R Halt Bool m m' →
    R Halt Bool m.withhold m'.withhold
  loop : ∀ {α : Type} {m : Reception σ Halt (Option α)} {m' : Reception τ Halt (Option α)},
    R Halt (Option α) m m' → ∀ {size : Session σ → Nat} {size' : Session τ → Nat}
    (h : Script.Descends size m) (h' : Script.Descends size' m'),
    R Halt α (Script.loop m size h) (Script.loop m' size' h')
  waitEdge : ∀ edge budget,
    R Halt Bool (Reception.waitEdge edge budget) (Reception.waitEdge edge budget)

namespace Reception

/-- Takes what began at `start` as a sync. -/
def accept (start : Nat) : Reception σ Halt Bool := do
  Script.modify fun s => { s with decoder.syncStart := start }
  Script.modify (Session.count fun c => { c with syncs := c.syncs + 1 })
  tell .debug fun s => s!"Sync at {start}: {speed s.decoder}"
  return true

/-- An attempt at a sync from its falling edge on. -/
def attemptAt (start : Nat) : Reception σ Halt Bool := do
  let accepted ← (measureSync start).withhold
  if accepted then accept start else return false

end Reception

namespace Concord

variable {c : Nat} {r : Session σ → Session τ → Prop}
  {R : ∀ (ε α : Type) [Cause ε], Reception σ ε α → Reception τ ε α → Prop} {ε : Type} [Cause ε]
  (h : Concord c r R)

include h

omit h [Source σ Sample] [Source τ Sample] in
theorem ite {α : Type} {p : Prop} [Decidable p] {m n : Reception σ ε α} {m' n' : Reception τ ε α}
    (hm : R ε α m m') (hn : R ε α n n') : R ε α (if p then m else n) (if p then m' else n') := by
  split
  · exact hm
  · exact hn

theorem times {m : Reception σ ε Unit} {m' : Reception τ ε Unit} (hm : R ε Unit m m') (n : Nat) :
    R ε Unit (Script.times n m) (Script.times n m') := by
  induction n with
  | zero =>
    rw [Script.times_zero, Script.times_zero]
    exact h.answer ()
  | succ n ih =>
    rw [Script.times_succ, Script.times_succ]
    exact h.bind hm fun _ => ih

/-! ## Reading and writing down -/

section Reads

variable {α : Type}

theorem readNow {k : Nat → Reception σ ε α} {k' : Nat → Reception τ ε α}
    (hk : ∀ now, R ε α (k now) (k' (now + c))) :
    R ε α (Script.read Session.now >>= k) (Script.read Session.now >>= k') :=
  h.read_bind (p := fun a b => b = a + c) (fun hc a b => by rw [hc, Nat.add_zero]; exact eq_comm)
    h.now fun a b hab => hab ▸ hk a

theorem readConfig {k : Config → Reception σ ε α} {k' : Config → Reception τ ε α}
    (hk : ∀ config, R ε α (k config) (k' config)) :
    R ε α (Script.read (fun s => s.decoder.config) >>= k)
      (Script.read (fun s => s.decoder.config) >>= k') :=
  h.read_bind (p := Eq) (fun _ _ _ => Iff.rfl) h.config fun a _ hab => hab ▸ hk a

theorem readPeriod {k : Nat → Reception σ ε α} {k' : Nat → Reception τ ε α}
    (hk : ∀ period, R ε α (k period) (k' period)) :
    R ε α (Script.read (fun s => s.decoder.bitTime) >>= k)
      (Script.read (fun s => s.decoder.bitTime) >>= k') :=
  h.read_bind (p := Eq) (fun _ _ _ => Iff.rfl) h.bitTime fun a _ hab => hab ▸ hk a

theorem readCommandStart {k : Option Nat → Reception σ ε α} {k' : Option Nat → Reception τ ε α}
    (hk : ∀ a b, Option.Rel (Later c) a b → R ε α (k a) (k' b)) :
    R ε α (Script.read Session.commandStart >>= k) (Script.read Session.commandStart >>= k') :=
  h.read_bind (fun hc _ _ => by rw [hc]; exact Later.rel_zero_iff) h.commandStart hk

end Reads

theorem counts {f : Stats → Stats} (hf : Heedless f) :
    R ε Unit (Script.modify (Session.count f)) (Script.modify (Session.count f)) :=
  h.modify fun s t => h.count s t f hf

/-- What is told does not depend on the session. -/
theorem tells (severity : Severity) {message message' : String} (hm : c = 0 → message = message') :
    R ε Unit (Reception.tell severity fun _ => message)
      (Reception.tell severity fun _ => message') :=
  h.tell severity fun hc _ _ _ => hm hc

/-- Annotations from a start that is later to the end of what was received. -/
theorem put (kind : AnnotationKind) (row : String) {start : Session σ → Nat}
    {start' : Session τ → Nat} (hstart : ∀ s t, r s t → Later c (start s) (start' t))
    (texts : List String) :
    R ε Unit (Script.emit fun s => ⟨kind, row, start s, s.stop, texts⟩)
      (Script.emit fun t => ⟨kind, row, start' t, t.stop, texts⟩) :=
  h.emit fun s t hst => ⟨by rw [h.stop hst, Annotation.delay], hstart s t hst⟩

theorem putBit (row : String) (start : Nat) (texts : List String) :
    R ε Unit (Reception.putBit row start texts) (Reception.putBit row (start + c) texts) :=
  h.put .bit row (fun _ _ _ => .add c start) texts

theorem putByte (start : Nat) (value : UInt8) :
    R ε Unit (Reception.putByte start value) (Reception.putByte (start + c) value) :=
  h.put .byte "byte-value" (fun _ _ _ => .add c start) _

theorem putField (row : String) {start : Session σ → Nat} {start' : Session τ → Nat}
    (hstart : ∀ s t, r s t → Later c (start s) (start' t)) (texts : List String) :
    R ε Unit (Reception.putField row start texts) (Reception.putField row start' texts) :=
  h.put .field row hstart texts

theorem putWarning {start : Session σ → Nat} {start' : Session τ → Nat}
    (hstart : ∀ s t, r s t → Later c (start s) (start' t)) (text : String) :
    R ε Unit (Reception.putWarning start text) (Reception.putWarning start' text) :=
  h.put .warning Annotation.warningRow hstart [text]

/-! ## Bits and bytes -/

theorem sampleBit : R Halt Bool Reception.sampleBit Reception.sampleBit :=
  h.readPeriod fun _ => h.bind (h.skip _) fun _ => h.bind (h.skip _) fun _ => h.answer _

theorem dataBit (label : Option String) :
    R Halt Bool (Reception.dataBit label) (Reception.dataBit label) :=
  h.readNow fun start => h.bind h.sampleBit fun _ =>
    h.bind (h.putBit "data-bit" start _) fun _ => h.answer _

theorem dataBits (n : Nat) :
    R Halt (List Bool) (Reception.dataBits n) (Reception.dataBits n) := by
  induction n with
  | zero => exact h.answer _
  | succ n ih => exact h.bind (h.dataBit none) fun _ => h.bind ih fun _ => h.answer _

theorem stopBits : R Halt Bool Reception.stopBits Reception.stopBits := by
  refine h.readNow fun start => h.readPeriod fun period => h.bind (h.skip _) fun _ =>
    h.bind (h.modify fun s t hst => h.setFrameEnd s t _ _ (.inl ?_) hst) fun _ =>
      h.bind (ite (h.putBit _ _ _) (h.putWarning (fun _ _ _ => .add c start) _)) fun _ => h.answer _
  exact Nat.add_right_comm ..

/-- What goes on after a start bit goes on from where it began. -/
theorem startBit_bind {α : Type} {k : Nat → Reception σ Interrupt α}
    {k' : Nat → Reception τ Interrupt α} (hk : ∀ start, R Interrupt α (k start) (k' (start + c))) :
    R Interrupt α (Reception.startBit >>= k) (Reception.startBit >>= k') := by
  unfold Reception.startBit
  simp only [bind_assoc]
  refine h.bind (h.orHalt h.fall) fun _ => h.readNow fun start => h.readPeriod fun _ =>
    h.bind (h.orHalt (h.skip _)) fun high => ?_
  cases high with
  | true =>
    simp only [↓reduceIte, bind_assoc]
    exact h.bind (h.tells _ fun hc => by rw [hc, Nat.add_zero]) fun _ =>
      h.bind (h.counts fun _ _ => rfl) fun _ => h.fail _
  | false =>
    simp only [Bool.false_eq_true, ↓reduceIte, bind_assoc, pure_bind]
    exact h.bind (h.orHalt (h.skip _)) fun _ => h.bind (h.putBit _ _ _) fun _ => hk start

theorem readByte : R Interrupt UInt8 Reception.readByte Reception.readByte := by
  refine h.startBit_bind fun start => h.bind (h.orHalt (h.dataBits _)) fun _ =>
    h.bind (h.orHalt h.stopBits) fun _ => ite ?_ ?_
  · exact h.bind (h.modify fun s t hst => h.setByteStart s t _ _ (.add c start) hst) fun _ =>
      h.bind (h.tells _ fun hc => by rw [hc, Nat.add_zero]) fun _ =>
        h.bind (h.putByte start _) fun _ => h.answer _
  · exact h.bind (h.tells _ fun hc => by rw [hc, Nat.add_zero]) fun _ =>
      h.bind (h.counts fun _ _ => rfl) fun _ => h.fail _

/-! ## What is made of a sync byte -/

theorem finishSync (start : Nat) :
    R Halt Bool (Reception.finishSync start) (Reception.finishSync (start + c)) :=
  h.bind (h.dataBit _) fun _ => h.bind h.stopBits fun _ =>
    ite (h.bind (h.putByte start _) fun _ =>
        h.bind (h.putField _ (fun _ _ _ => .add c start) _) fun _ => h.answer _)
      (h.bind (h.tells _ fun _ => rfl) fun _ => h.answer _)

theorem adoptPeriod (start intervals : Nat) :
    R Halt Bool (Reception.adoptPeriod start intervals)
      (Reception.adoptPeriod (start + c) intervals) := by
  refine h.readNow fun now => ite (h.fail _) ?_
  simp only [Nat.add_sub_add_right]
  exact ite (h.answer _) <| h.bind (h.modify fun s t hst => h.setBitTime s t _ hst) fun _ =>
    h.finishSync start

theorem accept (start : Nat) :
    R Halt Bool (Reception.accept start) (Reception.accept (start + c)) := by
  refine h.bind (h.modify fun s t hst => h.setSyncStart s t _ _ (.add c start) hst) fun _ =>
    h.bind (h.counts fun _ _ => rfl) fun _ =>
      h.bind (h.tell _ fun hc s t hst => ?_) fun _ => h.answer _
  simp only [Reception.speed, Decoder.baudRate, Decoder.samplesPerBit, h.bitTime s t hst,
    h.config s t hst, hc, Nat.add_zero]

/-! ## Payloads -/

theorem putOpcode (name : String) :
    R ε Unit (Reception.putOpcode name) (Reception.putOpcode name) :=
  h.putField _ h.byteStart _

theorem putCommand (name operands : String) :
    R ε Unit (Reception.putCommand name operands) (Reception.putCommand name operands) :=
  h.bind (h.counts fun _ _ => rfl) fun _ =>
    h.put .command "updi" (fun s t hst => .getD (h.commandStart s t hst) (h.valueStart s t hst)) _

theorem putRound (name operands again data : String) :
    R ε Unit (Reception.putRound name operands again data)
      (Reception.putRound name operands again data) := by
  refine h.readCommandStart fun _ _ hstart => ?_
  cases hstart with
  | some _ => exact h.putCommand _ _
  | none => exact h.put .command "updi" h.valueStart _

theorem unknownOpcode (cmd : UInt8) :
    R ε Unit (Reception.unknownOpcode cmd) (Reception.unknownOpcode cmd) :=
  h.bind (h.tells _ fun _ => rfl) fun _ => h.bind (h.putOpcode _) fun _ => h.putWarning h.byteStart _

theorem markValue : R ε Unit Reception.markValue Reception.markValue :=
  h.modify fun s t hst => h.setValueStart s t _ _ (h.byteStart s t hst) hst

theorem readSized (size : Nat) (label : String) :
    R Interrupt Value (Reception.readSized size label) (Reception.readSized size label) := by
  unfold Reception.readSized
  split
  · exact h.bind h.readByte fun _ => h.bind h.markValue fun _ => h.answer _
  · exact h.bind h.readByte fun _ => h.bind h.markValue fun _ => h.bind h.readByte fun _ =>
      h.answer _
  · exact h.fail _

theorem readValue (size : Nat) (row label : String) :
    R Interrupt Value (Reception.readValue size row label) (Reception.readValue size row label) :=
  h.bind (h.readSized _ _) fun _ => h.bind (h.putField _ h.valueStart _) fun _ => h.answer _

theorem readAck : R Interrupt Unit Reception.readAck Reception.readAck :=
  h.bind h.readByte fun _ => h.bind (h.putField _ h.byteStart _) fun _ =>
    ite (h.answer _) (h.putWarning h.byteStart _)

theorem readRest (n : Nat) :
    R Interrupt (List UInt8) (Reception.readBlock.readRest n) (Reception.readBlock.readRest n) := by
  induction n with
  | zero => exact h.answer _
  | succ n ih => exact h.bind h.readByte fun _ => h.bind ih fun _ => h.answer _

theorem readBlock (n : Nat) :
    R Interrupt (List UInt8) (Reception.readBlock n) (Reception.readBlock n) := by
  cases n with
  | zero => exact h.answer _
  | succ n =>
    exact h.bind h.readByte fun _ => h.bind h.markValue fun _ => h.bind (h.readRest n) fun _ =>
      h.answer _

theorem ld (cmd : UInt8) : R Interrupt Unit (Reception.ld cmd) (Reception.ld cmd) := by
  refine h.bind (h.readValue _ _ _) fun _ => ?_
  split
  · exact h.putRound _ _ _ _
  · exact h.putWarning h.valueStart _

theorem st (cmd : UInt8) : R Interrupt Unit (Reception.st cmd) (Reception.st cmd) := by
  refine h.bind (h.readValue _ _ _) fun _ => ?_
  split
  · exact h.bind h.readAck fun _ => h.putRound _ _ _ _
  · exact h.putWarning h.valueStart _

theorem key (cmd : UInt8) : R Interrupt Unit (Reception.key cmd) (Reception.key cmd) := by
  unfold Reception.key
  split
  · exact h.bind (h.readBlock _) fun _ => h.bind (h.putField _ h.valueStart _) fun _ =>
      h.putCommand _ _
  · exact h.fail _

theorem readSib : R Interrupt Unit Reception.readSib Reception.readSib := by
  refine h.bind (h.readBlock _) fun _ => h.bind (h.putField _ h.valueStart _) fun _ => ?_
  split
  · exact h.putCommand _ _
  · exact h.bind (h.tells _ fun _ => rfl) fun _ => h.bind (h.putWarning h.valueStart _) fun _ =>
      h.putCommand _ _

theorem payload (cmd : UInt8) (op : Opcode) :
    Option.Rel (R Interrupt Unit) (Reception.payload? cmd op) (Reception.payload? cmd op) := by
  cases op with
  | lds =>
    exact .some (h.bind (h.readValue _ _ _) fun _ => h.bind (h.readValue _ _ _) fun _ =>
      h.putCommand _ _)
  | ld => exact .some (h.ld cmd)
  | sts =>
    exact .some (h.bind (h.readValue _ _ _) fun _ => h.bind h.readAck fun _ =>
      h.bind (h.readValue _ _ _) fun _ => h.bind h.readAck fun _ => h.putCommand _ _)
  | st => exact .some (h.st cmd)
  | ldcs => exact .some (h.bind (h.readValue _ _ _) fun _ => h.putCommand _ _)
  | repeats => exact .none
  | stcs => exact .some (h.bind (h.readValue _ _ _) fun _ => h.putCommand _ _)
  | key => exact .some (h.key cmd)
  | readSib => exact .some h.readSib

/-! ## Commands -/

theorem beginCommand : R ε Unit Reception.beginCommand Reception.beginCommand :=
  h.modify fun s t hst => h.setCommandStart s t _ _ (.some (h.syncStart s t hst)) hst

theorem round {body : Reception σ Interrupt Unit} {body' : Reception τ Interrupt Unit}
    (hbody : R Interrupt Unit body body') :
    R Interrupt Unit (Reception.round body) (Reception.round body') :=
  h.bind hbody fun _ => h.modify fun s t hst => h.setCommandStart s t _ _ .none hst

theorem repeated (count : Nat) (cmd : UInt8) :
    R Interrupt Unit (Reception.repeated count cmd) (Reception.repeated count cmd) := by
  unfold Reception.repeated
  cases Opcode.decode cmd with
  | none => exact h.unknownOpcode cmd
  | some op =>
    have hpayload : Option.Rel (R Interrupt Unit) _ _ := h.payload cmd op
    dsimp only
    generalize (Reception.payload? cmd op : Option (Reception σ Interrupt Unit)) = body
      at hpayload ⊢
    generalize (Reception.payload? cmd op : Option (Reception τ Interrupt Unit)) = body'
      at hpayload ⊢
    cases hpayload with
    | none =>
      exact h.bind (h.tells _ fun _ => rfl) fun _ => h.bind (h.putOpcode _) fun _ =>
        h.putWarning h.byteStart _
    | some hbody => exact h.bind (h.putOpcode _) fun _ => h.times (h.round hbody) _

variable (hsync : R Halt Unit Reception.sync Reception.sync)

include hsync

theorem repeatNext (cmd : UInt8) :
    R Interrupt Unit (Reception.repeatNext cmd) (Reception.repeatNext cmd) :=
  h.bind (h.readValue _ _ _) fun _ => h.bind (h.putCommand _ _) fun _ =>
    h.bind (h.orHalt hsync) fun _ => h.bind h.beginCommand fun _ => h.bind h.readByte fun _ =>
      h.repeated _ _

theorem afterSync : R Interrupt Unit Reception.afterSync Reception.afterSync := by
  refine h.bind h.beginCommand fun _ => h.bind h.readByte fun cmd => ?_
  split
  · exact h.unknownOpcode cmd
  · rename_i op _
    refine h.bind (h.tells _ fun _ => rfl) fun _ => h.bind (h.putOpcode _) fun _ => ?_
    have hpayload : Option.Rel (R Interrupt Unit) _ _ := h.payload cmd op
    generalize (Reception.payload? cmd op : Option (Reception σ Interrupt Unit)) = body
      at hpayload ⊢
    generalize (Reception.payload? cmd op : Option (Reception τ Interrupt Unit)) = body'
      at hpayload ⊢
    cases hpayload with
    | none => exact h.repeatNext hsync cmd
    | some hbody => exact hbody

end Concord

namespace Unison

variable {c : Nat} {r : Session σ → Session τ → Prop}
  {R : ∀ (ε α : Type) [Cause ε], Reception σ ε α → Reception τ ε α → Prop} (h : Unison c r R)

include h

open Concord (ite)

/-! ## Syncs -/

theorem measureBits (maxBitTime n : Nat) :
    R Halt Bool (Reception.measureBits maxBitTime n) (Reception.measureBits maxBitTime n) := by
  induction n with
  | zero => exact h.answer _
  | succ n ih =>
    refine h.readNow fun start => h.bind (h.waitEdge _ _) fun _ => h.readNow fun now => ?_
    simp only [Nat.add_sub_add_right]
    exact ite (h.bind (h.tells _ fun _ => rfl) fun _ => h.answer _)
      (h.bind (h.putBit _ start _) fun _ => ih)

theorem measureSync (start : Nat) :
    R Halt Bool (Reception.measureSync start) (Reception.measureSync (start + c)) := by
  refine h.readConfig fun _ => h.bind (h.waitEdge _ _) fun _ => h.readNow fun now => ?_
  simp only [Nat.add_sub_add_right]
  exact ite (h.bind (h.tells _ fun _ => rfl) fun _ => h.answer _) <|
    h.bind (h.putBit _ start _) fun _ => h.bind (h.measureBits _ _) fun _ =>
      ite (h.adoptPeriod start _) (h.answer _)

theorem attemptAt (start : Nat) :
    R Halt Bool (Reception.attemptAt start) (Reception.attemptAt (start + c)) :=
  h.bind (h.withhold (h.measureSync start)) fun _ => ite (h.accept start) (h.answer _)

theorem trySync : R Halt Bool Reception.trySync Reception.trySync :=
  h.bind h.fall fun _ => h.readNow fun start =>
    h.bind (h.modify fun s t hst => h.setFrameEnd s t _ _ (.add c start) hst) fun _ =>
      h.attemptAt start

theorem attemptSync : R Halt (Option Unit) Reception.attemptSync Reception.attemptSync :=
  h.bind h.trySync fun _ => ite (h.answer _) <|
    h.bind (h.counts fun c more => by simp [Nat.add_right_comm]) fun _ => h.answer _

theorem sync : R Halt Unit Reception.sync Reception.sync :=
  h.loop h.attemptSync _ _

theorem afterSync : R Interrupt Unit Reception.afterSync Reception.afterSync :=
  h.toConcord.afterSync h.sync

end Unison

end Updi

end BusDecode
