import BusDecode.Proofs.Script
import BusDecode.Proofs.Updi.Grammar
import BusDecode.Updi.Command

/-!
# Following a grammar

`heard` and `said` are the two sides of a list of annotations: the bytes received outside syncs,
and the fields, commands and warnings made of them.  A run follows a grammar if it takes its bytes
by `readByte`, its syncs by `sync`, and otherwise only says what the grammar says (`Follows`).  Such
a run heard bytes on which the grammar says just what the run said (`Follows.heard_said`).
-/

set_option autoImplicit false

namespace BusDecode

namespace Updi

/-! ## The two sides of a list of annotations -/

/-- Texts of the received bytes; the byte of a sync has the sync field behind it. -/
def heard : List Annotation → List String
  | [] => []
  | a :: rest =>
    if a.row = "byte-value" ∧ rest.head?.map Annotation.row ≠ some "sync" then
      a.text :: heard rest
    else heard rest

/-- A field, command or warning, other than the field of a sync and the warning of a broken
frame. -/
def isSaid (a : Annotation) : Bool :=
  a.kind ∈ [AnnotationKind.field, .command, .warning] ∧ a.row ≠ "sync" ∧ a.texts ≠ ["Frame error"]

/-- An annotation without its place on the line. -/
def mark (a : Annotation) : Mark :=
  ⟨a.kind, a.row, a.texts⟩

/-- What was made of the bytes. -/
def said (xs : List Annotation) : List Mark :=
  (xs.filter isSaid).map mark

/-- The list does not begin in the middle of a sync. -/
def Begins (xs : List Annotation) : Prop :=
  xs.head?.map Annotation.row ≠ some "sync"

/-- An annotation of the line alone: neither heard nor said. -/
structure Plain (a : Annotation) : Prop where
  not_byte : a.row ≠ "byte-value"
  not_sync : a.row ≠ "sync"
  not_said : isSaid a = false

section Views

variable {xs ys : List Annotation} {a : Annotation}

theorem begins_nil : Begins [] := by
  simp [Begins]

theorem begins_cons (h : a.row ≠ "sync") : Begins (a :: xs) := by
  simpa [Begins] using h

theorem begins_append (hxs : Begins xs) (hys : Begins ys) : Begins (xs ++ ys) := by
  cases xs with
  | nil => exact hys
  | cons a xs => exact hxs

theorem heard_append (h : Begins ys) : heard (xs ++ ys) = heard xs ++ heard ys := by
  induction xs with
  | nil => rfl
  | cons a xs ih =>
    have hhead : (xs ++ ys).head?.map Annotation.row ≠ some "sync" ↔
        xs.head?.map Annotation.row ≠ some "sync" := by
      cases xs with
      | nil => simpa [Begins] using h
      | cons b xs => rfl
    simp only [List.cons_append, heard, hhead, ih]
    split <;> rfl

theorem said_append : said (xs ++ ys) = said xs ++ said ys := by
  simp [said]

theorem heard_plain (h : ∀ a ∈ xs, Plain a) : heard xs = [] := by
  induction xs with
  | nil => rfl
  | cons a xs ih =>
    rw [heard, if_neg fun hb => (h a List.mem_cons_self).not_byte hb.1]
    exact ih fun b hb => h b (List.mem_cons_of_mem _ hb)

theorem said_plain (h : ∀ a ∈ xs, Plain a) : said xs = [] := by
  have hfilter : xs.filter isSaid = [] := by
    rw [List.filter_eq_nil_iff]
    intro a ha
    simp [(h a ha).not_said]
  rw [said, hfilter]
  rfl

theorem begins_plain (h : ∀ a ∈ xs, Plain a) : Begins xs := by
  cases xs with
  | nil => exact begins_nil
  | cons a xs => exact begins_cons (h a List.mem_cons_self).not_sync

theorem row_ne_sync (h : isSaid a = true) : a.row ≠ "sync" := by
  simp only [isSaid, decide_eq_true_eq] at h
  exact h.2.1

theorem plain_bit (h : a.kind = .bit) (hrow : a.row ∈ ["start-bit", "data-bit", "stop-bit"]) :
    Plain a := by
  simp only [List.mem_cons, List.not_mem_nil, or_false] at hrow
  constructor
  · rintro hb
    rcases hrow with h | h | h <;> rw [hb] at h <;> simp at h
  · rintro hb
    rcases hrow with h | h | h <;> rw [hb] at h <;> simp at h
  · simp [isSaid, h]

theorem plain_frameError (start stop : Nat) : Plain (.warning start stop "Frame error") := by
  constructor
  · change "warnings" ≠ "byte-value"
    decide
  · change "warnings" ≠ "sync"
    decide
  · rfl

end Views

/-! ## Bits, bytes and syncs -/

structure Steady {σ : Type} (s s' : Session σ) : Prop where
  commandStart : s'.commandStart = s.commandStart
  bitTime : s'.decoder.bitTime = s.decoder.bitTime

instance {σ : Type} : Std.Refl (Steady : Session σ → Session σ → Prop) :=
  ⟨fun _ => ⟨rfl, rfl⟩⟩

instance {σ : Type} : Trans (Steady : Session σ → Session σ → Prop) Steady Steady :=
  ⟨fun h h' => ⟨h'.1.trans h.1, h'.2.trans h.2⟩⟩

namespace Reception

variable {σ : Type}

/-- A script that reads bits: what can be seen of it is plain. -/
abbrev ReadsBits {ε α : Type} (m : Reception σ ε α) : Prop :=
  Script.Shows Steady Plain m

section Annotating

variable {ε : Type}

theorem readsBits_tell (severity : Severity) (message : Session σ → String) :
    ReadsBits (tell severity message : Reception σ ε Unit) :=
  .note _

theorem readsBits_count (f : Stats → Stats) :
    ReadsBits (Script.modify (Session.count f) : Reception σ ε Unit) :=
  .modify fun _ => ⟨rfl, rfl⟩

theorem readsBits_putBit {row : String} (h : row ∈ ["start-bit", "data-bit", "stop-bit"])
    (start : Nat) (texts : List String) :
    ReadsBits (putBit row start texts : Reception σ ε Unit) :=
  .emit fun _ => plain_bit rfl h

theorem readsBits_putStop (start : Nat) (level : Bool) :
    ReadsBits (putStop start level : Reception σ ε Unit) :=
  .ite (readsBits_putBit (by decide) _ _) (.emit fun _ => plain_frameError _ _)

end Annotating

variable [Source σ Sample] {s : Session σ}

theorem readsBits_move (step : LineCursor → σ → Except Halt Bool × LineCursor × σ) :
    ReadsBits (move step) :=
  .lift fun _ => ⟨rfl, rfl⟩

theorem readsBits_sampleBit : ReadsBits (sampleBit : Reception σ Halt Bool) :=
  .bind (.read _) fun _ => .bind (readsBits_move _) fun _ => .bind (readsBits_move _) fun _ =>
    .answer _

theorem readsBits_dataBit (label : Option String) :
    ReadsBits (dataBit label : Reception σ Halt Bool) :=
  .bind (.read _) fun _ => .bind readsBits_sampleBit fun _ =>
    .bind (readsBits_putBit (by decide) _ _) fun _ => .answer _

theorem readsBits_dataBits (n : Nat) : ReadsBits (dataBits n : Reception σ Halt (List Bool)) := by
  induction n with
  | zero => exact .answer _
  | succ n ih => exact .bind (readsBits_dataBit _) fun _ => .bind ih fun _ => .answer _

theorem readsBits_stopBits : ReadsBits (stopBits : Reception σ Halt Bool) :=
  .bind (.read _) fun _ => .bind (.read _) fun _ => .bind (readsBits_move _) fun _ =>
    .bind (.modify fun _ => ⟨rfl, rfl⟩) fun _ => .bind (readsBits_putStop _ _) fun _ => .answer _

theorem readsBits_startBit : ReadsBits (startBit : Reception σ Interrupt Nat) :=
  .bind (.mapError (readsBits_move _) _) fun _ => .bind (.read _) fun _ => .bind (.read _) fun _ =>
    .bind (.mapError (readsBits_move _) _) fun _ =>
      .ite (.bind (readsBits_tell _ _) fun _ => .bind (readsBits_count _) fun _ => .fail _)
        (.bind (.mapError (readsBits_move _) _) fun _ =>
          .bind (readsBits_putBit (by decide) _ _) fun _ => .answer _)

theorem readsBits_measureBits (maxBitTime n : Nat) :
    ReadsBits (measureBits maxBitTime n : Reception σ Halt Bool) := by
  induction n with
  | zero => exact .answer _
  | succ n ih =>
    exact .bind (.read _) fun _ => .bind (readsBits_move _) fun _ => .bind (.read _) fun _ =>
      .ite (.bind (readsBits_tell _ _) fun _ => .answer _)
        (.bind (readsBits_putBit (by decide) _ _) fun _ => ih)

/-- The annotations of a received byte: those of its bits, then its value. -/
inductive OfByte (b : UInt8) : List Annotation → Prop
  | mk {bits : List Annotation} (start stop : Nat) (h : ∀ a ∈ bits, Plain a) :
      OfByte b (bits ++ [⟨.byte, "byte-value", start, stop, [Numeral.hexByte b]⟩])

/-- The annotations of a sync: those of its bits, then its byte and its field. -/
inductive OfSync : List Annotation → Prop
  | mk {bits : List Annotation} (start stop : Nat) (h : ∀ a ∈ bits, Plain a) :
      OfSync (bits ++ [⟨.byte, "byte-value", start, stop, [Numeral.hexByte 0x55]⟩] ++
        [⟨.field, "sync", start, stop, ["SYNC"]⟩])

section Parts

variable {b : UInt8} {xs : List Annotation}

theorem OfByte.heard (h : OfByte b xs) : heard xs = [Numeral.hexByte b] := by
  obtain ⟨start, stop, hplain⟩ := h
  rw [heard_append (begins_cons (by simp)), heard_plain hplain]
  simp [Updi.heard, Annotation.text]

theorem OfByte.said (h : OfByte b xs) : said xs = [] := by
  obtain ⟨start, stop, hplain⟩ := h
  rw [said_append, said_plain hplain]
  rfl

theorem OfByte.begins (h : OfByte b xs) : Begins xs := by
  obtain ⟨start, stop, hplain⟩ := h
  exact begins_append (begins_plain hplain) (begins_cons (by simp))

theorem OfSync.heard (h : OfSync xs) : heard xs = [] := by
  obtain ⟨start, stop, hplain⟩ := h
  rw [List.append_assoc, List.singleton_append, heard_append (begins_cons (by simp)),
    heard_plain hplain]
  simp [Updi.heard]

theorem OfSync.said (h : OfSync xs) : said xs = [] := by
  obtain ⟨start, stop, hplain⟩ := h
  rw [said_append, said_append, said_plain hplain]
  rfl

theorem OfSync.begins (h : OfSync xs) : Begins xs := by
  obtain ⟨start, stop, hplain⟩ := h
  rw [List.append_assoc]
  exact begins_append (begins_plain hplain) (begins_cons (by simp))

end Parts

theorem readByte_ends :
    Script.Ends (readByte : Reception σ Interrupt UInt8) s
      (fun b s' xs => Steady s s' ∧ OfByte b xs) fun _ _ xs => ∀ a ∈ xs, Plain a := by
  unfold readByte
  refine .bind ((readsBits_startBit.ends s).imp ?_ fun _ _ _ h => h.2)
  rintro start s₁ xs ⟨hs₁, hxs⟩
  refine .bind (((Script.Shows.mapError (readsBits_dataBits 8) _).ends s₁).imp ?_ ?_)
  · rintro bits s₂ ys ⟨hs₂, hys⟩
    refine .bind (((Script.Shows.mapError readsBits_stopBits _).ends s₂).imp ?_ ?_)
    · rintro stopped s₃ zs ⟨hs₃, hzs⟩
      have hplain : ∀ a ∈ xs ++ (ys ++ zs), Plain a := by
        simp only [List.forall_mem_append]
        exact ⟨hxs, hys, hzs⟩
      have hsteady : Steady s s₃ := Trans.trans (Trans.trans hs₁ hs₂) hs₃
      refine .ite (fun _ => ?_) fun _ => ?_
      · refine .bind (.modify (.bind (.note (.bind (.emit (.answer ?_))))))
        refine ⟨⟨hsteady.1, hsteady.2⟩, ?_⟩
        simp only [List.nil_append, List.append_nil, ← List.append_assoc] at hplain ⊢
        exact .mk _ _ hplain
      · refine .bind (.note (.bind (.modify (.fail ?_))))
        simpa using hplain
    · rintro e s₃ zs ⟨_, hzs⟩
      simp only [List.forall_mem_append]
      exact ⟨hxs, hys, hzs⟩
  · rintro e s₂ ys ⟨_, hys⟩
    simp only [List.forall_mem_append]
    exact ⟨hxs, hys⟩

theorem finishSync_ends (start : Nat) :
    Script.Ends (finishSync start : Reception σ Halt Bool) s
      (fun accepted _ xs => accepted → OfSync xs) fun _ _ _ => True := by
  unfold finishSync
  refine .bind (((readsBits_dataBit _).ends s).imp ?_ fun _ _ _ _ => trivial)
  rintro bit s₁ xs ⟨_, hxs⟩
  refine .bind ((readsBits_stopBits.ends s₁).imp ?_ fun _ _ _ _ => trivial)
  rintro stopped s₂ ys ⟨_, hys⟩
  refine .ite (fun _ => ?_) fun _ => ?_
  · refine .bind (.emit (.bind (.emit (.answer fun _ => ?_))))
    have hplain : ∀ a ∈ xs ++ ys, Plain a := List.forall_mem_append.2 ⟨hxs, hys⟩
    simp only [List.append_nil, ← List.append_assoc]
    exact .mk _ _ hplain
  · exact .bind (.note (.answer (by simp)))

theorem measureSync_ends (start : Nat) :
    Script.Ends (measureSync start : Reception σ Halt Bool) s
      (fun accepted _ xs => accepted → OfSync xs) fun _ _ _ => True := by
  unfold measureSync
  refine .bind (.read (.bind (((readsBits_move _).ends s).imp ?_ fun _ _ _ _ => trivial)))
  rintro _ s₁ xs ⟨_, hxs⟩
  refine .bind (.read (.ite (fun _ => .bind (.note (.answer (by simp)))) fun _ => ?_))
  refine .bind (((readsBits_putBit (by decide) _ _).ends s₁).imp ?_ fun _ _ _ _ => trivial)
  rintro _ s₂ ys ⟨_, hys⟩
  refine .bind (((readsBits_measureBits _ _).ends s₂).imp ?_ fun _ _ _ _ => trivial)
  rintro credible s₃ zs ⟨_, hzs⟩
  refine .ite (fun _ => ?_) fun _ => .answer (by simp)
  unfold adoptPeriod
  refine .bind (.read (.ite (fun _ => .fail trivial) fun _ => ?_))
  refine .ite (fun _ => .answer (by simp)) fun _ => .bind (.modify ?_)
  refine (finishSync_ends start).imp ?_ fun _ _ _ _ => trivial
  intro accepted s₄ ws hws haccepted
  obtain ⟨first, last, hbits⟩ := hws haccepted
  rename_i bits
  have hplain : ∀ a ∈ xs ++ (ys ++ (zs ++ bits)), Plain a := by
    simp only [List.forall_mem_append]
    exact ⟨hxs, hys, hzs, hbits⟩
  simp only [List.nil_append, ← List.append_assoc] at hplain ⊢
  exact .mk _ _ hplain

theorem move_ends (step : LineCursor → σ → Except Halt Bool × LineCursor × σ) :
    Script.Ends (move step) s (fun _ _ xs => xs = []) fun _ _ xs => xs = [] := by
  have hshows : Script.Shows Steady (fun _ => False) (move step) := .lift fun _ => ⟨rfl, rfl⟩
  refine (hshows.ends s).imp ?_ ?_
  · rintro _ _ xs ⟨_, hxs⟩
    exact List.eq_nil_iff_forall_not_mem.2 hxs
  · rintro _ _ xs ⟨_, hxs⟩
    exact List.eq_nil_iff_forall_not_mem.2 hxs

theorem trySync_ends :
    Script.Ends (trySync : Reception σ Halt Bool) s
      (fun accepted _ xs => if accepted then OfSync xs else xs = []) fun _ _ xs => xs = [] := by
  unfold trySync
  refine .bind ((move_ends _).mono ?_)
  rintro _ s₁ _ rfl
  refine .bind (.read (.bind (.modify (.bind (.withhold ((measureSync_ends _).imp ?_ ?_))))))
  · intro accepted s₂ xs hxs
    cases accepted with
    | true =>
      refine .bind (.modify (.bind (.modify (.bind (.note (.answer ?_))))))
      simpa using hxs rfl
    | false => exact .answer (by simp)
  · intro _ _ _ _
    rfl

/-- A sync hands on nothing unless it succeeds. -/
theorem sync_ends :
    Script.Ends (sync : Reception σ Halt Unit) s (fun _ _ xs => OfSync xs)
      fun _ _ xs => xs = [] := by
  unfold sync
  refine Script.Ends.loop_quiet (I := fun _ => True) trivial fun s _ => ?_
  unfold attemptSync
  refine .bind (trySync_ends.mono ?_)
  intro accepted s₁ xs hxs
  cases accepted with
  | true => exact .answer (by simpa using hxs)
  | false => exact .bind (.modify (.answer ⟨trivial, by simpa using hxs⟩))

end Reception

/-! ## Following a grammar -/

section Following

variable {σ : Type} [Source σ Sample] {α α' β β' : Type}

/-- Nothing but the bookkeeping of a command has changed. -/
structure Aside (s s' : Session σ) : Prop where
  source : s'.source = s.source
  decoder : ∃ n, s'.decoder = { s.decoder with stats.commands := n }

/-- A run that does as a grammar says; the answers of both, and the state the run ends in, satisfy
`Q`. -/
inductive Follows (Q : α → β → Session σ → Prop) :
    Grammar β → Session σ → Trace (Session σ) Annotation Interrupt α → Prop
  | done {a : α} {b : β} {s : Session σ} (h : Q a b s) : Follows Q (.done b) s ⟨.ok a, s, []⟩
  | refuse (e : DecodeError) (s : Session σ) :
      Follows Q (.refuse e) s ⟨.error (.halt (.undecodable e)), s, []⟩
  | say {g : Grammar β} {s : Session σ} {t : Trace (Session σ) Annotation Interrupt α}
      (x : Annotation) (hx : isSaid x = true) (hrow : x.row ≠ "byte-value") (h : Follows Q g s t) :
      Follows Q (.say (mark x) g) s (t.after [.emit x s])
  | note {g : Grammar β} {s : Session σ} {t : Trace (Session σ) Annotation Interrupt α}
      (event : Event) (h : Follows Q g s t) : Follows Q g s (t.after [.note event])
  | aside {g : Grammar β} {s s' : Session σ} {t : Trace (Session σ) Annotation Interrupt α}
      (hs : Aside s s') (h : Follows Q g s' t) : Follows Q g s t
  | byte {k : UInt8 → Grammar β} {s s' : Session σ} {b : UInt8}
      {effects : List (Effect (Session σ) Annotation)}
      {t : Trace (Session σ) Annotation Interrupt α}
      (hr : Reception.readByte.run s = ⟨.ok b, s', effects⟩) (h : Follows Q (k b) s' t) :
      Follows Q (.byte k) s (t.after effects)
  | noByte {s s' : Session σ} {e : Interrupt} {effects : List (Effect (Session σ) Annotation)}
      (k : UInt8 → Grammar β) (hr : Reception.readByte.run s = ⟨.error e, s', effects⟩) :
      Follows Q (.byte k) s ⟨.error e, s', effects⟩
  | resync {g : Grammar β} {s s' : Session σ} {effects : List (Effect (Session σ) Annotation)}
      {t : Trace (Session σ) Annotation Interrupt α}
      (hr : Reception.sync.run s = ⟨.ok (), s', effects⟩) (h : Follows Q g s' t) :
      Follows Q (.resync g) s (t.after effects)
  | noResync {s s' : Session σ} {e : Halt} {effects : List (Effect (Session σ) Annotation)}
      (k : UInt8 → Grammar β) (hr : Reception.sync.run s = ⟨.error e, s', effects⟩) :
      Follows Q (.resync (.byte k)) s ⟨.error (.halt e), s', effects⟩

namespace Follows

variable {Q : α → β → Session σ → Prop} {Q' : α' → β' → Session σ → Prop} {g : Grammar β}
  {s : Session σ} {t : Trace (Session σ) Annotation Interrupt α}

/-- What comes after a run, as `run_bind` has it. -/
def goOn (t : Trace (Session σ) Annotation Interrupt α) (f : α → Reception σ Interrupt α') :
    Trace (Session σ) Annotation Interrupt α' :=
  match t with
  | ⟨.ok a, s, effects⟩ => ((f a).run s).after effects
  | ⟨.error e, s, effects⟩ => ⟨.error e, s, effects⟩

omit [Source σ Sample] in
theorem goOn_after (before : List (Effect (Session σ) Annotation))
    (t : Trace (Session σ) Annotation Interrupt α) (f : α → Reception σ Interrupt α') :
    goOn (t.after before) f = (goOn t f).after before := by
  rcases t with ⟨_ | a, s, effects⟩ <;> simp [goOn, Trace.after]

theorem goOn_follows {f : α → Reception σ Interrupt α'} {k : β → Grammar β'}
    (h : Follows Q g s t) (hf : ∀ a b s, Q a b s → Follows Q' (k b) s ((f a).run s)) :
    Follows Q' (g.andThen k) s (goOn t f) := by
  induction h with
  | done h => exact hf _ _ _ h
  | refuse e s => exact .refuse e s
  | say x hx hrow h ih =>
    rw [goOn_after]
    exact .say x hx hrow ih
  | note event h ih =>
    rw [goOn_after]
    exact .note event ih
  | aside hs h ih => exact .aside hs ih
  | byte hr h ih =>
    rw [goOn_after]
    exact .byte hr ih
  | noByte k' hr => exact .noByte _ hr
  | resync hr h ih =>
    rw [goOn_after]
    exact .resync hr ih
  | noResync k' hr => exact .noResync _ hr

theorem bind {m : Reception σ Interrupt α} {f : α → Reception σ Interrupt α'}
    {k : β → Grammar β'} (h : Follows Q g s (m.run s))
    (hf : ∀ a b s, Q a b s → Follows Q' (k b) s ((f a).run s)) :
    Follows Q' (g >>= k) s ((m >>= f).run s) := by
  have hrun : (m >>= f).run s = goOn (m.run s) f := by
    rw [Script.run_bind]
    rcases m.run s with ⟨_ | a, s', effects⟩ <;> rfl
  rw [hrun]
  exact h.goOn_follows hf

theorem mono {Q' : α → β → Session σ → Prop} (h : Follows Q g s t)
    (hQ : ∀ a b s, Q a b s → Q' a b s) : Follows Q' g s t := by
  induction h with
  | done h => exact .done (hQ _ _ _ h)
  | refuse e s => exact .refuse e s
  | say x hx hrow h ih => exact .say x hx hrow ih
  | note event h ih => exact .note event ih
  | aside hs h ih => exact .aside hs ih
  | byte hr h ih => exact .byte hr ih
  | noByte k hr => exact .noByte k hr
  | resync hr h ih => exact .resync hr ih
  | noResync k hr => exact .noResync k hr

/-- **A run that follows a grammar** heard bytes on which the grammar says just what the run said,
taking them all; and where the grammar refuses a size, the run ended with it. -/
theorem heard_said (h : Follows Q g s t) :
    ∃ bs : List UInt8, heard t.items = bs.map Numeral.hexByte ∧ said t.items = g.marks bs ∧
      g.left bs = [] ∧ Begins t.items ∧
      ∀ e, g.refused bs = some e → t.result = .error (.halt (.undecodable e)) := by
  induction h with
  | done h => exact ⟨[], rfl, rfl, rfl, begins_nil, by simp [Grammar.refused]⟩
  | refuse e s => exact ⟨[], rfl, rfl, rfl, begins_nil, by simp [Grammar.refused]⟩
  | say x hx hrow h ih =>
    obtain ⟨bs, hheard, hsaid, hleft, hbegins, hrefused⟩ := ih
    refine ⟨bs, ?_, ?_, hleft, begins_cons (row_ne_sync hx), hrefused⟩
    · rw [Trace.items_after_emit, heard, if_neg fun h => hrow h.1, hheard]
    · rw [Trace.items_after_emit, said, List.filter_cons_of_pos hx, List.map_cons]
      exact congrArg _ hsaid
  | note event h ih => exact ih
  | aside hs h ih => exact ih
  | @byte k s s' b effects t hr h ih =>
    obtain ⟨bs, hheard, hsaid, hleft, hbegins, hrefused⟩ := ih
    have hread := Reception.readByte_ends (s := s)
    unfold Script.Ends at hread
    rw [hr] at hread
    obtain ⟨_, hbyte⟩ := hread
    refine ⟨b :: bs, ?_, ?_, hleft, ?_, hrefused⟩
    · rw [Trace.items_after, heard_append hbegins, hbyte.heard, hheard]
      rfl
    · rw [Trace.items_after, said_append, hbyte.said, hsaid]
      rfl
    · rw [Trace.items_after]
      exact begins_append hbyte.begins hbegins
  | @noByte s s' e effects k hr =>
    have hread := Reception.readByte_ends (s := s)
    unfold Script.Ends at hread
    rw [hr] at hread
    exact ⟨[], heard_plain hread, said_plain hread, rfl, begins_plain hread,
      by simp [Grammar.refused]⟩
  | @resync g s s' effects t hr h ih =>
    obtain ⟨bs, hheard, hsaid, hleft, hbegins, hrefused⟩ := ih
    have hsync := Reception.sync_ends (s := s)
    unfold Script.Ends at hsync
    rw [hr] at hsync
    refine ⟨bs, ?_, ?_, hleft, ?_, hrefused⟩
    · rw [Trace.items_after, heard_append hbegins, hsync.heard, hheard]
      rfl
    · rw [Trace.items_after, said_append, hsync.said, hsaid]
      rfl
    · rw [Trace.items_after]
      exact begins_append hsync.begins hbegins
  | @noResync s s' e effects k hr =>
    have hsync := Reception.sync_ends (s := s)
    unfold Script.Ends at hsync
    rw [hr] at hsync
    have hitems : (⟨.error (.halt e), s', effects⟩ : Trace (Session σ) Annotation Interrupt α).items
        = [] := hsync
    rw [hitems]
    exact ⟨[], rfl, rfl, rfl, begins_nil, by simp [Grammar.refused]⟩

end Follows

end Following

end Updi

end BusDecode
