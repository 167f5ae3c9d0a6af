import BusDecode.Proofs.Updi.Windows

/-!
# What a command annotation covers

A command annotation should reach over everything that the command was decoded from, which is what
came since the last command or sync.  Its end always does, as the end of what was received never
goes back.  Its start is the sync of the command, and in a further round of a repeated one the value
read last.  Most instructions read a single value (`covers_one`); LDS and STS read an address before
their data, so their further rounds start behind the address (`covers_two`).
-/

set_option autoImplicit false

namespace BusDecode

namespace Updi

open Annotation (begins_of_text not_begins)

/-! ## Before and after a command -/

section Commands

variable {σ : Type} {place : Nat} {xs ys : List Annotation} {s t : Session σ} {a : Annotation}

/-- In the first round of a command nothing since its sync is before its start. -/
structure First (start : Nat) (xs : List Annotation) (s : Session σ) : Prop where
  timely : Timely s
  commandStart : s.commandStart = some start
  passed : start ≤ s.now
  mark : lastMark xs = some "sync"
  within : ∀ a ∈ window xs, start ≤ a.start ∧ a.stop ≤ s.stop

/-- Before a further round there has been nothing since the last command. -/
structure Again (xs : List Annotation) (s : Session σ) : Prop where
  timely : Timely s
  commandStart : s.commandStart = none
  mark : lastMark xs = some "updi"
  empty : window xs = []

/-- A payload can be read, for the first time or again. -/
def Poised (xs : List Annotation) (s : Session σ) : Prop :=
  (∃ start, First start xs s) ∨ Again xs s

/-- A command has just been handed on. -/
structure Complete (xs : List Annotation) (s : Session σ) : Prop where
  timely : Timely s
  mark : lastMark xs = some "updi"
  empty : window xs = []

theorem Poised.timely (h : Poised xs s) : Timely s := by
  rcases h with ⟨_, hfirst⟩ | hagain
  · exact hfirst.timely
  · exact hagain.timely

/-- A command begins with its sync. -/
theorem Opened.begin {start : Nat} (h : Opened start xs s) :
    First start xs { s with commandStart := some start } :=
  ⟨⟨h.timely.period, h.timely.frame⟩, rfl, h.passed, h.mark, h.empty ▸ nofun⟩

/-- Another round can be read once the start is gone. -/
theorem Complete.again (h : Complete xs s) : Again xs { s with commandStart := none } :=
  ⟨⟨h.timely.period, h.timely.frame⟩, rfl, h.mark, h.empty⟩

theorem Complete.of_put (hs : Timely s) (hrow : a.row = "updi") : Complete (xs ++ [a]) s := by
  have hmark : a.row ∈ markRows := hrow ▸ (by decide)
  exact ⟨hs, hrow ▸ lastMark_mark hmark, window_mark hmark⟩

theorem First.past {start : Nat} (h : First start xs s) (hpast : Past place xs s ys t)
    (hfrom : s.now ≤ place) : First start ys t where
  timely := hpast.timely
  commandStart := hpast.commandStart.trans h.commandStart
  passed := Nat.le_trans h.passed hpast.now
  mark := hpast.mark.trans h.mark
  within a ha := by
    rcases hpast.added a ha with hmem | ⟨hplace, hstop⟩
    · exact ⟨(h.within a hmem).1, Nat.le_trans (h.within a hmem).2 hpast.stop⟩
    · exact ⟨Nat.le_trans (Nat.le_trans h.passed hfrom) hplace, hstop⟩

/-- A command with a start of its own covers everything. -/
theorem First.covers {start : Nat} (h : First start xs s)
    (hstart : a.start = s.commandStart.getD s.valueStart) (hstop : a.stop = s.stop) :
    Covers xs a where
  stop b hb := hstop ▸ (h.within b hb).2
  start _ b hb := by
    rw [hstart, h.commandStart]
    exact (h.within b hb).1
  further hfurther := by
    rw [Further, h.mark] at hfurther
    exact absurd hfurther.1 (by decide)

theorem Again.past (h : Again xs s) (hpast : Past place xs s ys t) :
    ∀ a ∈ window ys, place ≤ a.start ∧ a.stop ≤ t.stop :=
  fun a ha => (hpast.added a ha).resolve_left (by simp [h.empty])

/-- A command of a single value covers all of it, whether it has a start of its own or not. -/
theorem covers_one (h : Poised xs s) (hpast : Past place xs s ys t) (hfrom : s.now ≤ place)
    (hvalue : t.valueStart = place) (hstart : a.start = t.commandStart.getD t.valueStart)
    (hstop : a.stop = t.stop) (hname : ¬Addressed a) : Covers ys a := by
  rcases h with ⟨start, hfirst⟩ | hagain
  · exact (hfirst.past hpast hfrom).covers hstart hstop
  · have hwindow := hagain.past hpast
    rw [hpast.commandStart, hagain.commandStart] at hstart
    refine ⟨fun b hb => hstop ▸ (hwindow b hb).2, fun _ b hb => ?_, fun h => absurd h.2 hname⟩
    rw [hstart, Option.getD_none, hvalue]
    exact (hwindow b hb).1

/-- A command of an address and data covers both if it has a start of its own; if not, it starts
with the data. -/
theorem covers_two (h : Poised xs s) (hpast : Past place xs s ys t) (hfrom : s.now ≤ place)
    (hstart : a.start = t.commandStart.getD t.valueStart) (hstop : a.stop = t.stop)
    (hname : Addressed a) (haddr : ∃ b ∈ window ys, b.row = "updi-addr" ∧ b.start < t.valueStart)
    (hdata : ∃ b ∈ window ys, b.row = "updi-data" ∧ b.start = t.valueStart) : Covers ys a := by
  rcases h with ⟨start, hfirst⟩ | hagain
  · exact (hfirst.past hpast hfrom).covers hstart hstop
  · have hwindow := hagain.past hpast
    rw [hpast.commandStart, hagain.commandStart, Option.getD_none] at hstart
    have hfurther : Further ys a := ⟨hpast.mark.trans hagain.mark, hname⟩
    refine ⟨fun b hb => hstop ▸ (hwindow b hb).2, fun h => absurd hfurther h, fun _ => ?_⟩
    rw [hstart]
    exact ⟨haddr, hdata⟩

/-- A value has been read since a session, and perhaps more after it. -/
structure Gathered (xs : List Annotation) (s : Session σ) (ys : List Annotation)
    (t : Session σ) : Prop where
  past : Past t.valueStart xs s ys t
  begins : s.now ≤ t.valueStart
  passed : t.valueStart < t.now

theorem Gathered.later {zs : List Annotation} {u : Session σ} (h : Gathered xs s ys t)
    (hpast : Past place ys t zs u) (hplace : t.now ≤ place)
    (hvalue : u.valueStart = t.valueStart) : Gathered xs s zs u := by
  have hpassed := h.passed
  refine ⟨?_, ?_, ?_⟩ <;> rw [hvalue]
  · exact h.past.trans hpast (by omega)
  · exact h.begins
  · exact Nat.lt_of_lt_of_le hpassed hpast.now

/-- What begins like this is neither an LDS nor an STS. -/
def Unaddressed (lead : String) : Prop :=
  Apart "LDS " lead ∧ Apart "STS " lead

instance (lead : String) : Decidable (Unaddressed lead) :=
  inferInstanceAs (Decidable (_ ∧ _))

theorem not_addressed {lead rest : String} (h : a.text = lead ++ rest)
    (hlead : Unaddressed lead) : ¬Addressed a := by
  rintro (hname | hname)
  · exact not_begins h hlead.1 hname
  · exact not_begins h hlead.2 hname

end Commands

namespace Reception

open Script (Upholds)

/-! ## Handing on commands -/

section Putting

variable {σ ε : Type} {xs ys : List Annotation} {s t : Session σ}

theorem putCommand_completes (hs : Timely s) (name operands : String)
    (hcovers : ∀ a : Annotation, a.text = name ++ " " ++ operands →
      a.start = s.commandStart.getD s.valueStart → a.stop = s.stop → Covers xs a) :
    Tracks (putCommand name operands : Reception σ ε Unit) xs s fun _ => Complete := by
  unfold putCommand
  refine .bind (.modify (fun hP => ⟨hP.placed, hP.covering⟩) (.emit (fun hP => ?_) ?_))
  · exact ⟨hP.placed, hP.covering.put fun _ => hcovers _ rfl rfl rfl⟩
  · exact .of_put ⟨hs.period, hs.frame⟩ rfl

theorem putContinuation_completes (hs : Timely s) (hstart : s.commandStart = none)
    (texts : List String)
    (hcovers : ∀ a : Annotation, a.text = texts.head?.getD "" →
      a.start = s.commandStart.getD s.valueStart → a.stop = s.stop → Covers xs a) :
    Tracks (putContinuation texts : Reception σ ε Unit) xs s fun _ => Complete := by
  refine .emit (fun hP => ?_) (.of_put hs rfl)
  refine ⟨hP.placed, hP.covering.put fun _ => hcovers _ rfl ?_ rfl⟩
  rw [hstart]
  rfl

/-- The command of a single value. -/
theorem putCommand_one (h : Poised xs s) (hvalue : Gathered xs s ys t) (name operands : String)
    (hname : Unaddressed (name ++ " ")) :
    Tracks (putCommand name operands : Reception σ ε Unit) ys t fun _ => Complete :=
  putCommand_completes hvalue.past.timely name operands fun _ htext hstart hstop =>
    covers_one h hvalue.past hvalue.begins rfl hstart hstop (not_addressed htext hname)

/-- The command of a value that was read through the pointer. -/
theorem putRound_one (h : Poised xs s) (hvalue : Gathered xs s ys t)
    (name operands lead again data : String)
    (hname : Unaddressed (name ++ " ")) (hlead : Unaddressed lead) :
    Tracks (putRound name operands (lead ++ again) data : Reception σ ε Unit) ys t fun _ =>
      Complete := by
  refine .bind (.read ?_)
  split
  · exact putCommand_one h hvalue name operands hname
  · rename_i hnone
    refine putContinuation_completes hvalue.past.timely hnone _ fun a htext hstart hstop => ?_
    exact covers_one h hvalue.past hvalue.begins rfl hstart hstop (not_addressed htext hlead)

/-- The command of an address and data, which was read after it. -/
theorem putCommand_two {place : Nat} (h : Poised xs s) (hpast : Past place xs s ys t)
    (hfrom : s.now ≤ place) {name : String} (hname : name = "LDS" ∨ name = "STS")
    (operands : String)
    (haddr : ∃ b ∈ window ys, b.row = "updi-addr" ∧ b.start < t.valueStart)
    (hdata : ∃ b ∈ window ys, b.row = "updi-data" ∧ b.start = t.valueStart) :
    Tracks (putCommand name operands : Reception σ ε Unit) ys t fun _ => Complete := by
  refine putCommand_completes hpast.timely name operands fun a htext hstart hstop => ?_
  refine covers_two h hpast hfrom hstart hstop ?_ haddr hdata
  rcases hname with rfl | rfl
  · exact .inl (begins_of_text htext)
  · exact .inr (begins_of_text htext)

/-- A field in a row that counts begins where the value does. -/
theorem putField_gathered (h : Gathered xs s ys t) {row : String} (hrow : row ∈ sourceRows)
    (texts : List String) :
    Tracks (putField row Session.valueStart texts : Reception σ ε Unit) ys t fun _ zs u =>
      Gathered xs s zs u ∧ (∀ a ∈ window ys, a ∈ window zs) ∧
        ∃ a ∈ window zs, a.row = row ∧ a.start = u.valueStart := by
  have hupdi : ∀ row ∈ sourceRows, row ≠ "updi" := by decide
  refine tracks_emit row rfl (hupdi row hrow) ?_
  refine ⟨⟨h.past.put hrow rfl rfl, h.begins, h.passed⟩, ?_⟩
  rw [window_source hrow]
  exact ⟨fun _ => List.mem_append_left _, _, List.mem_append_right _ (List.mem_singleton.2 rfl),
    rfl, rfl⟩

theorem putWarning_gathered (h : Gathered xs s ys t) (start : Session σ → Nat) (text : String) :
    Tracks (putWarning start text : Reception σ ε Unit) ys t fun _ zs u => Gathered xs s zs u :=
  have hrow : "warnings" ∉ markRows ++ sourceRows := by decide
  tracks_emit "warnings" rfl (by decide) ⟨h.past.aside_put hrow, h.begins, h.passed⟩

/-- The byte read last begins a value. -/
theorem markValue_gathers {Q : Unit → List Annotation → Session σ → Prop}
    (hpast : Past t.byteStart xs s ys t) (hfrom : s.now ≤ t.byteStart) (hto : t.byteStart < t.now)
    (hQ : ∀ u, Gathered xs s ys u → Q () ys u) :
    Tracks (markValue : Reception σ ε Unit) ys t Q :=
  .modify id (hQ _ ⟨hpast.aside t.byteStart t.byteStart, hfrom, hto⟩)

theorem putOpcode_first {start : Nat} (h : First start xs s)
    (hpast : Past t.byteStart xs s ys t) (hfrom : s.now ≤ t.byteStart) (name : String) :
    Tracks (putOpcode name : Reception σ ε Unit) ys t fun _ zs u => First start zs u := by
  have hrow : "updi-opcode" ∈ sourceRows := by decide
  exact tracks_emit "updi-opcode" rfl (by decide) (h.past (hpast.put hrow rfl rfl) hfrom)

/-- Nothing that an unknown opcode hands on is a command. -/
theorem unknownOpcode_tracks (cmd : UInt8) (xs : List Annotation) (s : Session σ) :
    Tracks (unknownOpcode cmd : Reception σ ε Unit) xs s fun _ _ _ => True :=
  .bind (.note (.bind (tracks_emit "updi-opcode" rfl (by decide)
    (tracks_emit "warnings" rfl (by decide) trivial))))

end Putting

/-! ## Reading operands -/

variable {σ : Type} {xs ys : List Annotation} {s t : Session σ} [Source σ Sample]

/-- Further bytes leave the start of a value where it is. -/
theorem readByte_gathered (h : Gathered xs s ys t) :
    Tracks readByte ys t fun _ zs u => Gathered xs s zs u :=
  (readByte_past h.past.timely ys).mono fun _ _ _ _ ⟨hpast, hvalue, hfrom, _⟩ =>
    h.later hpast hfrom hvalue

theorem readSized_gathers (h : Timely s) (size : Nat) (label : String) (xs : List Annotation) :
    Tracks (readSized size label) xs s fun _ ys t => Gathered xs s ys t := by
  unfold readSized
  split
  · refine .bind ((readByte_past h xs).mono fun _ ys t _ ⟨hpast, _, hfrom, hto⟩ => ?_)
    exact .bind (markValue_gathers hpast hfrom hto fun _ hvalue => .answer hvalue)
  · refine .bind ((readByte_past h xs).mono fun _ ys t _ ⟨hpast, _, hfrom, hto⟩ => ?_)
    refine .bind (markValue_gathers hpast hfrom hto fun _ hvalue => .bind ?_)
    exact (readByte_gathered hvalue).mono fun _ _ _ _ hvalue => .answer hvalue
  · exact .fail

theorem readValue_gathers (h : Timely s) (size : Nat) {row : String} (hrow : row ∈ sourceRows)
    (label : String) (xs : List Annotation) :
    Tracks (readValue size row label) xs s fun _ ys t =>
      Gathered xs s ys t ∧ ∃ a ∈ window ys, a.row = row ∧ a.start = t.valueStart := by
  unfold readValue
  refine .bind ((readSized_gathers h size label xs).mono fun _ _ _ _ hvalue => .bind ?_)
  exact (putField_gathered hvalue hrow _).mono fun _ _ _ _ ⟨hvalue, _, hfield⟩ =>
    .answer ⟨hvalue, hfield⟩

/-- An acknowledgement leaves the value that it is for where it is. -/
theorem readAck_gathered (h : Gathered xs s ys t) :
    Tracks readAck ys t fun _ zs u =>
      Gathered xs s zs u ∧ u.valueStart = t.valueStart ∧ ∀ a ∈ window ys, a ∈ window zs := by
  unfold readAck
  refine .bind ((readByte_past h.past.timely ys).mono ?_)
  rintro _ zs u - ⟨hpast, hvalue, hfrom, -⟩
  have hrow : "updi-ack" ∈ sourceRows := by decide
  refine .bind (tracks_emit "updi-ack" rfl (by decide) ?_)
  have hack := hpast.put (a := ⟨.field, "updi-ack", u.byteStart, u.stop, ["ACK"]⟩) hrow rfl rfl
  refine .ite (fun _ => .answer ?_) fun _ => tracks_emit "warnings" rfl (by decide) ?_
  · exact ⟨h.later hack hfrom hvalue, hvalue, hack.kept⟩
  · have hwarning : "warnings" ∉ markRows ++ sourceRows := by decide
    have hwarned := hack.aside_put
      (a := .warning u.byteStart u.stop s!"Expected ACK, got {Numeral.hexByte ‹UInt8›}") hwarning
    exact ⟨h.later hwarned hfrom hvalue, hvalue, hwarned.kept⟩

theorem readRest_gathered (n : Nat) (h : Gathered xs s ys t) :
    Tracks (readBlock.readRest n) ys t fun _ zs u => Gathered xs s zs u := by
  induction n generalizing ys t with
  | zero => exact .answer h
  | succ n ih =>
    refine .bind ((readByte_gathered h).mono fun _ _ _ _ hvalue => .bind ?_)
    exact (ih hvalue).mono fun _ _ _ _ hvalue => .answer hvalue

theorem readBlock_gathers (h : Timely s) (n : Nat) (xs : List Annotation) :
    Tracks (readBlock (n + 1)) xs s fun _ ys t => Gathered xs s ys t := by
  refine .bind ((readByte_past h xs).mono fun _ ys t _ ⟨hpast, _, hfrom, hto⟩ => ?_)
  refine .bind (markValue_gathers hpast hfrom hto fun _ hvalue => .bind ?_)
  exact (readRest_gathered n hvalue).mono fun _ _ _ _ hvalue => .answer hvalue

/-! ## Instructions -/

theorem lds_completes (h : Poised xs s) (cmd : UInt8) :
    Tracks (lds cmd) xs s fun _ => Complete := by
  refine .bind ((readValue_gathers h.timely _ (by decide) _ xs).mono ?_)
  rintro _ ys t - ⟨haddr, a, ha, hrow, hstart⟩
  refine .bind ((readValue_gathers haddr.past.timely _ (by decide) _ ys).mono ?_)
  rintro _ zs u - ⟨hdata, hfield⟩
  have hbefore : a.start < u.valueStart :=
    hstart ▸ Nat.lt_of_lt_of_le haddr.passed hdata.begins
  have hpast := haddr.past.trans hdata.past (hstart ▸ Nat.le_of_lt hbefore)
  exact putCommand_two h hpast haddr.begins (.inl rfl) _
    ⟨a, hdata.past.kept a ha, hrow, hbefore⟩ hfield

theorem sts_completes (h : Poised xs s) (cmd : UInt8) :
    Tracks (sts cmd) xs s fun _ => Complete := by
  refine .bind ((readValue_gathers h.timely _ (by decide) _ xs).mono ?_)
  rintro _ ys t - ⟨haddr, a, ha, hrow, hstart⟩
  refine .bind ((readAck_gathered haddr).mono ?_)
  rintro _ zs u - ⟨hack, hvalue, hkept⟩
  refine .bind ((readValue_gathers hack.past.timely _ (by decide) _ zs).mono ?_)
  rintro _ vs v - ⟨hdata, b, hb, hrow', hstart'⟩
  refine .bind ((readAck_gathered hdata).mono ?_)
  rintro _ ws w - ⟨hlast, hvalue', hkept'⟩
  have hbefore : a.start < w.valueStart := by
    have := hack.passed
    have := hdata.begins
    omega
  have hpast := hack.past.trans hlast.past (by omega)
  refine putCommand_two h hpast hack.begins (.inr rfl) _ ?_ ?_
  · exact ⟨a, hlast.past.kept a (hkept a ha), hrow, hbefore⟩
  · exact ⟨b, hkept' b hb, hrow', hstart'.trans hvalue'.symm⟩

/-- Either there is a command in the end, or there is none in any round. -/
theorem ld_completes (cmd : UInt8) :
    (∀ (xs : List Annotation) (s : Session σ), Poised xs s →
      Tracks (ld cmd) xs s fun _ => Complete) ∨
    ∀ (xs : List Annotation) (s : Session σ), Timely s →
      Tracks (ld cmd) xs s fun _ _ t => Timely t := by
  cases hpointer : (Pointer.decode cmd).filter (· ≠ .register) with
  | some pointer =>
    refine .inl fun xs s h => .bind ((readValue_gathers h.timely _ (by decide) _ xs).mono ?_)
    rintro _ ys t - ⟨hdata, -⟩
    rw [hpointer]
    exact putRound_one h hdata "LD" _ "... <- " _ _ (by decide) (by decide)
  | none =>
    refine .inr fun xs s h => .bind ((readValue_gathers h _ (by decide) _ xs).mono ?_)
    rintro _ ys t - ⟨hdata, -⟩
    rw [hpointer]
    exact (putWarning_gathered hdata _ _).mono fun _ _ _ _ hwarned => hwarned.past.timely

theorem st_completes (cmd : UInt8) :
    (∀ (xs : List Annotation) (s : Session σ), Poised xs s →
      Tracks (st cmd) xs s fun _ => Complete) ∨
    ∀ (xs : List Annotation) (s : Session σ), Timely s →
      Tracks (st cmd) xs s fun _ _ t => Timely t := by
  cases hpointer : Pointer.decode cmd with
  | some pointer =>
    refine .inl fun xs s h => .bind ((readValue_gathers h.timely _ (by decide) _ xs).mono ?_)
    rintro _ ys t - ⟨hdata, -⟩
    rw [hpointer]
    refine .bind ((readAck_gathered hdata).mono ?_)
    rintro _ zs u - ⟨hack, -⟩
    exact putRound_one h hack "ST" _ "..., " _ _ (by decide) (by decide)
  | none =>
    refine .inr fun xs s h => .bind ((readValue_gathers h _ (by decide) _ xs).mono ?_)
    rintro _ ys t - ⟨hdata, -⟩
    rw [hpointer]
    exact (putWarning_gathered hdata _ _).mono fun _ _ _ _ hwarned => hwarned.past.timely

theorem ldcs_completes (h : Poised xs s) (cmd : UInt8) :
    Tracks (ldcs cmd) xs s fun _ => Complete := by
  refine .bind ((readValue_gathers h.timely _ (by decide) _ xs).mono ?_)
  rintro _ ys t - ⟨hdata, -⟩
  exact putCommand_one h hdata "LDCS" _ (by decide)

theorem stcs_completes (h : Poised xs s) (cmd : UInt8) :
    Tracks (stcs cmd) xs s fun _ => Complete := by
  refine .bind ((readValue_gathers h.timely _ (by decide) _ xs).mono ?_)
  rintro _ ys t - ⟨hdata, -⟩
  exact putCommand_one h hdata "STCS" _ (by decide)

theorem key_completes (h : Poised xs s) (cmd : UInt8) :
    Tracks (key cmd) xs s fun _ => Complete := by
  unfold key
  split
  · rename_i count hcount
    obtain ⟨n, rfl⟩ := exists_keyLength hcount
    refine .bind ((readBlock_gathers h.timely n xs).mono fun _ _ _ _ hbytes => ?_)
    refine .bind ((putField_gathered hbytes (by decide) _).mono ?_)
    rintro _ zs u - ⟨hkey, -⟩
    exact putCommand_one h hkey "KEY" _ (by decide)
  · exact .fail

theorem readSib_completes (h : Poised xs s) : Tracks readSib xs s fun _ => Complete := by
  refine .bind ((readBlock_gathers h.timely 15 xs).mono fun _ _ _ _ hbytes => ?_)
  refine .bind ((putField_gathered hbytes (by decide) _).mono ?_)
  rintro _ zs u - ⟨hblock, -⟩
  split
  · exact putCommand_one h hblock "READSIB" _ (by decide)
  · refine .bind (.note (.bind ((putWarning_gathered hblock _ _).mono ?_)))
    exact fun _ _ _ _ hwarned => putCommand_one h hwarned "READSIB" _ (by decide)

/-- Whatever instruction it is, it ends in a command, or there is none in any round. -/
theorem payload_completes {cmd : UInt8} {op : Opcode} {body : Reception σ Interrupt Unit}
    (hbody : payload? cmd op = some body) :
    (∀ (xs : List Annotation) (s : Session σ), Poised xs s →
      Tracks body xs s fun _ => Complete) ∨
    ∀ (xs : List Annotation) (s : Session σ), Timely s →
      Tracks body xs s fun _ _ t => Timely t := by
  cases op <;> cases hbody
  · exact .inl fun _ _ h => lds_completes h cmd
  · exact ld_completes cmd
  · exact .inl fun _ _ h => sts_completes h cmd
  · exact st_completes cmd
  · exact .inl fun _ _ h => ldcs_completes h cmd
  · exact .inl fun _ _ h => stcs_completes h cmd
  · exact .inl fun _ _ h => key_completes h cmd
  · exact .inl fun _ _ h => readSib_completes h

/-! ## Commands -/

theorem repeated_tracks {start : Nat} (h : First start xs s) (hpast : Past t.byteStart xs s ys t)
    (hfrom : s.now ≤ t.byteStart) (count : Nat) (cmd : UInt8) :
    Tracks (repeated count cmd) ys t fun _ _ _ => True := by
  unfold repeated
  split
  · exact unknownOpcode_tracks cmd ys t
  · split
    · exact .bind (.note (.bind (tracks_emit "updi-opcode" rfl (by decide)
        (tracks_emit "warnings" rfl (by decide) trivial))))
    · rename_i body hbody
      refine .bind ((putOpcode_first h hpast hfrom _).mono fun _ zs u _ hfirst => ?_)
      rcases payload_completes hbody with hcomplete | htimely
      · have hround : ∀ ws w, Poised ws w → Tracks (round body) ws w fun _ => Poised :=
          fun ws w hw => .bind ((hcomplete ws w hw).mono fun _ _ _ _ hdone =>
            .modify id (.inr hdone.again))
        exact (Upholds.times Poised hround (count + 1) (.inl ⟨start, hfirst⟩)).mono
          fun _ _ _ _ _ => trivial
      · have hround : ∀ ws w, Timely w → Tracks (round body) ws w fun _ _ v => Timely v :=
          fun ws w hw => .bind ((htimely ws w hw).mono fun _ _ _ _ hdone =>
            .modify id ⟨hdone.period, hdone.frame⟩)
        exact (Upholds.times (fun _ => Timely) hround (count + 1) hfirst.timely).mono
          fun _ _ _ _ _ => trivial

theorem repeatNext_tracks (h : Poised xs s) (cmd : UInt8) :
    Tracks (repeatNext cmd) xs s fun _ _ _ => True := by
  refine .bind ((readValue_gathers h.timely _ (by decide) _ xs).mono ?_)
  rintro _ ys t - ⟨hcount, -⟩
  refine .bind ((putCommand_one h hcount "REPEAT" _ (by decide)).mono fun _ zs u _ _ => ?_)
  refine .bind (.mapError ((sync_opens zs u).mono fun _ _ _ _ hopened => ?_))
  refine .bind (.modify id (.bind ((readByte_past hopened.begin.timely _).mono ?_)))
  exact fun _ _ _ _ ⟨hpast, _, hfrom, _⟩ => repeated_tracks hopened.begin hpast hfrom _ _

theorem afterSync_tracks (h : Opened s.decoder.syncStart xs s) :
    Tracks afterSync xs s fun _ _ _ => True := by
  refine .bind (.modify id (.bind ((readByte_past h.begin.timely _).mono ?_)))
  rintro cmd ys t - ⟨hpast, -, hfrom, -⟩
  split
  · exact unknownOpcode_tracks cmd ys t
  · rename_i op _
    refine .bind (.note (.bind ((putOpcode_first h.begin hpast hfrom _).mono ?_)))
    rintro _ zs u - hfirst
    cases hbody : (payload? cmd op : Option (Reception σ Interrupt Unit)) with
    | none => exact repeatNext_tracks (.inl ⟨_, hfirst⟩) cmd
    | some body =>
      rcases payload_completes hbody with hcomplete | htimely
      · exact (hcomplete zs u (.inl ⟨_, hfirst⟩)).mono fun _ _ _ _ _ => trivial
      · exact (htimely zs u hfirst.timely).mono fun _ _ _ _ _ => trivial

theorem command_tracks (xs : List Annotation) (s : Session σ) :
    Tracks command xs s fun _ _ _ => True := by
  refine .bind ((sync_opens xs s).mono fun _ ys t _ hopened => ?_)
  refine .bind (.attempt (afterSync_tracks hopened) fun outcome zs u _ => ?_)
  split
  · exact .answer trivial
  · exact .fail

end Reception

/-! ## The life of a decoder -/

theorem lasting_tracked : Lasting Tracked :=
  ⟨fun h => ⟨h.placed, h.covering.of_append⟩, Reception.command_tracks⟩

/-- **Every command but a further round of an LDS or STS covers what it was decoded from.**  In
whatever calls a decoder is used, each command stops no earlier than anything since the last command
or sync, and starts no later; only an LDS or STS without a sync of its own starts with its data,
behind its address. -/
theorem told_covers (name : String) (config : Config) (calls : List Call) :
    Covering (Decoder.told { name, config } calls) := by
  have hfresh : Tracked [] ({ name, config } : Decoder) := ⟨fun _ => rfl, covering_nil⟩
  obtain ⟨d, hd⟩ := lasting_tracked.told hfresh calls
  exact hd.covering

/-- A REPEAT of an LDS at two samples for each bit: the second round, its bytes at 171 and 193, is
annotated from 193 on, which leaves out the byte of the address and the address itself. -/
theorem told_uncovered :
    let line : List Sample := [⟨0, true⟩, ⟨17, false⟩, ⟨19, true⟩, ⟨21, false⟩, ⟨23, true⟩,
      ⟨25, false⟩, ⟨27, true⟩, ⟨29, false⟩, ⟨31, true⟩, ⟨33, false⟩, ⟨35, true⟩, ⟨39, false⟩,
      ⟨51, true⟩, ⟨53, false⟩, ⟨55, true⟩, ⟨61, false⟩, ⟨63, true⟩, ⟨65, false⟩, ⟨79, true⟩,
      ⟨83, false⟩, ⟨85, true⟩, ⟨87, false⟩, ⟨89, true⟩, ⟨91, false⟩, ⟨93, true⟩, ⟨95, false⟩,
      ⟨97, true⟩, ⟨99, false⟩, ⟨101, true⟩, ⟨105, false⟩, ⟨123, true⟩, ⟨127, false⟩, ⟨145, true⟩,
      ⟨149, false⟩, ⟨167, true⟩, ⟨171, false⟩, ⟨189, true⟩, ⟨193, false⟩, ⟨211, true⟩, ⟨215, true⟩]
    let config : Config := { samplerate := some 1000000, maxBitTime := 10 }
    let xs := Decoder.told { config } [⟨line, true, none, .starved⟩]
    ∃ before command, xs = before ++ [command] ∧ command.row = "updi" ∧ command.start = 193 ∧
      (window before).map (fun a => (a.row, a.start, a.stop)) =
        [("byte-value", 171, 193), ("updi-addr", 171, 193), ("byte-value", 193, 215),
          ("updi-data", 193, 215)] := by
  intro line config xs
  have hlast : xs.getLast? =
      some ⟨.command, "updi", 193, 215, ["LDS 00 <- 00", "LDS"]⟩ := by decide +kernel
  refine ⟨xs.dropLast, _, (List.dropLast_append_getLast? _ hlast).symm, rfl, rfl, ?_⟩
  decide +kernel

end Updi

end BusDecode
