import BusDecode.Proofs.Merger

/-!
# Merging lines with faults

A read of a line may fail and a later one succeed.  A step of the merger that meets a fault ends
there, perhaps behind lines whose pins it has set, and in the middle of a line.  But a pin is set
with every sample that is received and at no other time, so the pins are the levels received last
whatever the step answers (`next_agrees`), and later steps go on from there
(`next_keeps_levels`).
-/

set_option autoImplicit false

namespace BusDecode

/-! ## Queues that fail now and then -/

/-- A queue of samples some of whose reads fail: `trouble k` is what is wrong at the `k`-th one.  It
remembers what has been received from it. -/
structure QueueLine where
  trouble : Nat → Option {e : Halt // e ≠ .endOfStream}
  queue : List Sample := []
  reads : Nat := 0
  received : List Sample := []

namespace QueueLine

/-- A line of which one more read has been made. -/
def read (l : QueueLine) : QueueLine :=
  { l with reads := l.reads + 1 }

/-- A line after its first sample has been received. -/
def take (l : QueueLine) (x : Sample) (rest : List Sample) : QueueLine :=
  { l with queue := rest, received := l.received ++ [x] }

/-- The level received last; a line is low before the first. -/
def level (l : QueueLine) : Bool :=
  (l.received.getLast?.map Sample.level).getD false

instance source : Source QueueLine Sample where
  recv l :=
    match l.trouble l.reads, l.queue with
    | some e, _ => (.error e, l.read)
    | none, [] => (.error .endOfStream, l.read)
    | none, x :: rest => (.ok x, l.read.take x rest)
  peek l :=
    match l.trouble l.reads, l.queue with
    | some e, _ => (.error e, l.read)
    | none, [] => (.error .endOfStream, l.read)
    | none, x :: _ => (.ok x, l.read)
  putBack x l := { l with queue := x :: l.queue }
  takeEvents l := ([], l)
  size l := l.queue.length
  size_recv_lt {l _} h := by
    split at h
    · cases h
    · cases h
    · simp [*, take]
  size_recv_le l := by
    split <;> simp [*, take, read]
  size_peek_le l := by
    split <;> simp [*, read]
  size_takeEvents_le _ := Nat.le_refl _

/-- What reading makes of a line: some of its samples have been received, each once and in order. -/
def Took (taken : List Sample) (l l' : QueueLine) : Prop :=
  l'.received = l.received ++ taken ∧ l.queue = taken ++ l'.queue

variable {taken more : List Sample} {l l' l'' : QueueLine}

theorem Took.read (l : QueueLine) : Took [] l l.read :=
  ⟨(List.append_nil _).symm, rfl⟩

theorem Took.take {x : Sample} {rest : List Sample} (h : l.queue = x :: rest) :
    Took [x] l (l.take x rest) :=
  ⟨rfl, h⟩

theorem Took.trans (h : Took taken l l') (h' : Took more l' l'') : Took (taken ++ more) l l'' :=
  ⟨by rw [h'.1, h.1, List.append_assoc], by rw [h.2, h'.2, List.append_assoc]⟩

/-- What has been received and what waits are the same samples as before. -/
theorem Took.conserves (h : Took taken l l') : l'.received ++ l'.queue = l.received ++ l.queue := by
  rw [h.1, h.2, List.append_assoc]

theorem Took.level (h : Took taken l l') :
    l'.level = (taken.getLast?.map Sample.level).getD l.level := by
  unfold QueueLine.level
  rw [h.1, List.getLast?_append]
  cases taken.getLast? <;> rfl

theorem recv_cases {x : Sample} {rest : List Sample} (h : l.queue = x :: rest) :
    (∃ e, e ≠ .endOfStream ∧ Source.recv l = (.error e, l.read)) ∨
      Source.recv l = (.ok x, l.read.take x rest) := by
  cases htrouble : l.trouble l.reads with
  | some e => exact .inl ⟨e, e.2, by simp [Source.recv, htrouble]⟩
  | none => exact .inr (by simp [Source.recv, htrouble, h])

end QueueLine

namespace Merger

open QueueLine (Took)

variable {l : QueueLine} {lines : List QueueLine} {pins : UInt16} {line : Nat}

/-! ## One line -/

theorem headTime_cases (l : QueueLine) :
    (∃ e, e ≠ .endOfStream ∧ headTime l = (.error e, l.read, [])) ∨
      headTime l = (.ok (l.queue.head?.map Sample.time), l.read, []) := by
  unfold headTime Source.peek?
  cases htrouble : l.trouble l.reads with
  | some e =>
    obtain ⟨e, he⟩ := e
    refine .inl ⟨e, he, ?_⟩
    cases e with
    | endOfStream => exact absurd rfl he
    | _ => simp [Source.peek, htrouble, Source.takeEvents, Except.map]
  | none =>
    refine .inr ?_
    cases hqueue : l.queue <;> simp [Source.peek, htrouble, hqueue, Source.takeEvents, Except.map]

/-- Wherever the draining of a line ends, its pin has been set with each sample that was received,
and it does not end as if the stream were over. -/
theorem drainLine_took (line time : Nat) (pins : UInt16) (l : QueueLine) (told : List Event) :
    ∃ r l' taken, drainLine line time pins l told = (r, apply line pins taken, l', told) ∧
      Took taken l l' ∧ r ≠ .error .endOfStream := by
  induction hqueue : l.queue generalizing l pins with
  | nil =>
    rw [drainLine_eq]
    obtain ⟨e, he, hhead⟩ | hhead := headTime_cases l
    · rw [hhead]
      exact ⟨.error e, l.read, [], by simp [apply], .read l, by simpa using he⟩
    · rw [hhead, hqueue]
      exact ⟨.ok (), l.read, [], by simp [apply], .read l, by simp⟩
  | cons x rest ih =>
    rw [drainLine_eq]
    obtain ⟨e, he, hhead⟩ | hhead := headTime_cases l
    · rw [hhead]
      exact ⟨.error e, l.read, [], by simp [apply], .read l, by simpa using he⟩
    rw [hhead, hqueue]
    dsimp only [List.head?_cons, Option.map_some]
    rw [List.append_nil]
    split
    · exact ⟨.ok (), l.read, [], rfl, .read l, by simp⟩
    obtain ⟨e, he, hrecv⟩ | hrecv := QueueLine.recv_cases (l := l.read) hqueue
    · rw [hrecv]
      exact ⟨.error e, l.read.read, [], rfl, (Took.read l).trans (.read _), by simpa using he⟩
    · obtain ⟨r, l', taken, hrest, htook, hr⟩ :=
        ih (PinVector.setPin pins line x.level) (l.read.read.take x rest) rfl
      rw [hrecv]
      have htake : Took [x] l (l.read.read.take x rest) := Took.take hqueue
      exact ⟨r, l', x :: taken, hrest, htake.trans htook, hr⟩

/-! ## All lines -/

/-- From a line on, every pin has the level that was received last from its line; where there is no
line it is low. -/
def Agrees (line : Nat) (pins : UInt16) (lines : List QueueLine) : Prop :=
  ∀ k, line + k < 16 →
    pins.toNat.testBit (line + k) = (lines[k]?.map QueueLine.level).getD false

/-- Lines that are read: of each some samples have been received, and no line gets lost. -/
abbrev Onward : List QueueLine → List QueueLine → Prop :=
  List.Forall₂ fun l l' => ∃ taken, Took taken l l'

/-- Lines at which one has only looked. -/
abbrev Looked : List QueueLine → List QueueLine → Prop :=
  List.Forall₂ (Took [])

theorem looked_refl (lines : List QueueLine) : Looked lines lines :=
  List.forall₂_same.2 fun _ _ => ⟨(List.append_nil _).symm, rfl⟩

variable {lines' lines'' : List QueueLine}

theorem Looked.onward (h : Looked lines lines') : Onward lines lines' :=
  h.imp fun _ _ htook => ⟨[], htook⟩

/-- One who only looks finds the same samples again. -/
theorem Looked.same (h : Looked lines lines') :
    lines'.map (fun l => (l.received, l.queue)) = lines.map fun l => (l.received, l.queue) := by
  induction h with
  | nil => rfl
  | cons htook _ ih =>
    rw [List.map_cons, List.map_cons, ih, htook.1, htook.2, List.append_nil, List.nil_append]

theorem Onward.trans (h : Onward lines lines') (h' : Onward lines' lines'') :
    Onward lines lines'' := by
  induction h generalizing lines'' with
  | nil => exact h'
  | cons htook _ ih =>
    obtain ⟨taken, htook⟩ := htook
    cases h' with
    | cons htook' hrest =>
      obtain ⟨more, htook'⟩ := htook'
      exact .cons ⟨taken ++ more, htook.trans htook'⟩ (ih hrest)

/-- What has become of one of the lines. -/
theorem Onward.getElem? (h : Onward lines lines') {n : Nat} {l' : QueueLine}
    (hl' : lines'[n]? = some l') : ∃ l taken, lines[n]? = some l ∧ Took taken l l' := by
  induction h generalizing n with
  | nil => cases hl'
  | @cons l _ _ _ htook _ ih =>
    cases n with
    | zero =>
      obtain rfl := Option.some.inj hl'
      obtain ⟨taken, htook⟩ := htook
      exact ⟨l, taken, rfl, htook⟩
    | succ n => exact ih hl'

theorem agrees_cons : Agrees line pins (l :: lines) ↔
    (line < 16 → pins.toNat.testBit line = l.level) ∧ Agrees (line + 1) pins lines := by
  constructor
  · intro h
    refine ⟨fun hline => h 0 hline, fun k hk => ?_⟩
    rw [Nat.add_right_comm]
    exact h (k + 1) (by omega)
  · rintro ⟨hfirst, hrest⟩ k hk
    cases k with
    | zero => exact hfirst hk
    | succ k =>
      rw [← Nat.add_assoc, Nat.add_right_comm]
      exact hrest k (by omega)

/-- Pins of lines further in front are of no account. -/
theorem Agrees.same {pins' : UInt16} (h : Agrees line pins lines)
    (hsame : ∀ n < 16, line ≤ n → pins'.toNat.testBit n = pins.toNat.testBit n) :
    Agrees line pins' lines :=
  fun k hk => (hsame _ hk (Nat.le_add_right _ _)).trans (h k hk)

theorem Agrees.looked (h : Agrees line pins lines) (hlooked : Looked lines lines') :
    Agrees line pins lines' := by
  induction hlooked generalizing line with
  | nil => exact h
  | cons htook _ ih =>
    rw [agrees_cons] at h ⊢
    exact ⟨fun hline => (h.1 hline).trans htook.level.symm, ih h.2⟩

theorem earliest_looked (lines : List QueueLine) :
    ∃ r lines', earliest lines = (r, lines', []) ∧ Looked lines lines' ∧
      r ≠ .error .endOfStream := by
  induction lines with
  | nil => exact ⟨.ok none, [], rfl, .nil, by simp⟩
  | cons l lines ih =>
    obtain ⟨r, lines', hrest, hlooked, hr⟩ := ih
    rw [earliest]
    obtain ⟨e, he, hhead⟩ | hhead := headTime_cases l
    · rw [hhead]
      exact ⟨.error e, l.read :: lines, rfl, .cons (.read l) (looked_refl lines), by simpa using he⟩
    · rw [hhead, hrest]
      cases r with
      | error e => exact ⟨.error e, l.read :: lines', rfl, .cons (.read l) hlooked, hr⟩
      | ok t => exact ⟨.ok _, l.read :: lines', rfl, .cons (.read l) hlooked, by simp⟩

/-- **Wherever draining ends**, in the middle of a line even, the pins are the levels received last,
and those of the lines before are as they were. -/
theorem drain_agrees (time : Nat) (h : Agrees line pins lines) (hlen : line + lines.length ≤ 16) :
    ∃ r pins' lines', drain time line pins lines = (r, pins', lines', []) ∧
      Agrees line pins' lines' ∧ (∀ n < line, pins'.toNat.testBit n = pins.toNat.testBit n) ∧
      Onward lines lines' ∧ r ≠ .error .endOfStream := by
  induction lines generalizing line pins with
  | nil => exact ⟨.ok (), pins, [], rfl, h, fun _ _ => rfl, .nil, by simp⟩
  | cons l lines ih =>
    rw [List.length_cons] at hlen
    obtain ⟨r, l', taken, hline, htook, hr⟩ := drainLine_took line time pins l []
    obtain ⟨hfirst, hrest⟩ := agrees_cons.1 h
    have hpin : ∀ n < 16, (apply line pins taken).toNat.testBit n =
        if n = line then l'.level else pins.toNat.testBit n := by
      intro n hn
      rw [testBit_apply (by omega) hn, htook.level, ← hfirst (by omega)]
      split
      · rename_i heq
        rw [heq]
      · rfl
    have hothers : ∀ n < 16, n ≠ line →
        (apply line pins taken).toNat.testBit n = pins.toNat.testBit n :=
      fun n hn hne => (hpin n hn).trans (if_neg hne)
    have hline' : (apply line pins taken).toNat.testBit line = l'.level :=
      (hpin line (by omega)).trans (if_pos rfl)
    replace hrest : Agrees (line + 1) (apply line pins taken) lines :=
      hrest.same fun n hn hle => hothers n hn (by omega)
    rw [drain, hline]
    cases r with
    | error e =>
      exact ⟨.error e, _, l' :: lines, rfl, agrees_cons.2 ⟨fun _ => hline', hrest⟩,
        fun n hn => hothers n (by omega) (Nat.ne_of_lt hn),
        .cons ⟨taken, htook⟩ (Looked.onward (looked_refl lines)), hr⟩
    | ok _ =>
      obtain ⟨r', pins', lines', hdrain, hagrees, hbefore, honward, hr'⟩ := ih hrest (by omega)
      refine ⟨r', pins', l' :: lines', by simp [hdrain], agrees_cons.2 ⟨fun _ => ?_, hagrees⟩,
        fun n hn => ?_, .cons ⟨taken, htook⟩ honward, hr'⟩
      · rw [hbefore line (Nat.lt_succ_self line), hline']
      · rw [hbefore n (Nat.lt_succ_of_lt hn), hothers n (by omega) (Nat.ne_of_lt hn)]

/-- **A step of the merger**, whatever it answers, leaves the pins at the levels received last.  A
vector carries those pins, and at the end of the stream nothing has changed. -/
theorem next_agrees (m : Merger) (h : Agrees 0 m.pins lines) (hlen : lines.length ≤ 16) :
    ∃ r m' lines', m.next lines = (r, m', lines', []) ∧ Agrees 0 m'.pins lines' ∧
      Onward lines lines' ∧ (∀ v, r = .ok v → v.pins = m'.pins) ∧
      (r = .error .endOfStream → m' = m ∧ Looked lines lines') := by
  obtain ⟨r, lines', hearliest, hlooked, hr⟩ := earliest_looked lines
  have honward : Onward lines lines' := Looked.onward hlooked
  rw [next, hearliest]
  rcases r with e | _ | time
  · exact ⟨.error e, m, lines', rfl, h.looked hlooked, honward, by simp, fun _ => ⟨rfl, hlooked⟩⟩
  · exact ⟨_, m, lines', rfl, h.looked hlooked, honward, by simp, fun _ => ⟨rfl, hlooked⟩⟩
  · obtain ⟨r', pins', lines'', hdrain, hagrees, -, honward', hr'⟩ :=
      drain_agrees time (h.looked hlooked) (by rw [Nat.zero_add, ← hlooked.length_eq]; exact hlen)
    dsimp only
    rw [hdrain]
    refine ⟨_, ⟨pins'⟩, lines'', rfl, hagrees, honward.trans honward', ?_, ?_⟩
    · rintro v hv
      cases r' with
      | error e => cases hv
      | ok _ => rw [← Except.ok.inj hv]
    · intro hend
      cases r' with
      | error e => exact absurd (congrArg Except.error (Except.error.inj hend)) hr'
      | ok _ => cases hend

/-! ## Calls and arrivals -/

/-- What happens to a merger and its lines: a call, or the arrival of samples at a line. -/
inductive Happening where
  | next
  | append (line : Nat) (xs : List Sample)

namespace Happening

def perform (s : Merger × List QueueLine) : Happening → Merger × List QueueLine
  | next =>
    let called := s.1.next s.2
    (called.2.1, called.2.2.1)
  | append line xs => (s.1, s.2.modify line fun l => { l with queue := l.queue ++ xs })

/-- The samples that arrive at a line. -/
def supplied (line : Nat) : Happening → List Sample
  | next => []
  | append k xs => if k = line then xs else []

end Happening

/-- The pins are the levels received last, and each line has received the first of the samples given
to it and has the others waiting. -/
structure Faithful (count : Nat) (given : Nat → List Sample) (s : Merger × List QueueLine) :
    Prop where
  length : s.2.length = count
  agrees : Agrees 0 s.1.pins s.2
  accounts : ∀ n l, s.2[n]? = some l → l.received ++ l.queue = given n

namespace Faithful

variable {count : Nat} {given : Nat → List Sample} {s : Merger × List QueueLine}

theorem fresh (trouble : Nat → Nat → Option {e : Halt // e ≠ .endOfStream}) :
    Faithful count (fun _ => []) ({}, (List.range count).map fun n => { trouble := trouble n }) where
  length := by simp
  agrees k hk := by
    cases hline : (List.range count)[k]? <;> simp [hline, QueueLine.level]
  accounts n l hl := by
    obtain ⟨k, -, rfl⟩ := List.mem_map.1 (List.mem_of_getElem? hl)
    rfl

/-- A call keeps faith, and no sample arrives in it. -/
theorem next (hcount : count ≤ 16) (h : Faithful count given s) :
    Faithful count given ((s.1.next s.2).2.1, (s.1.next s.2).2.2.1) := by
  obtain ⟨r, m', lines', hnext, hagrees, honward, -, -⟩ :=
    next_agrees s.1 h.agrees (by rw [h.length]; exact hcount)
  rw [hnext]
  refine ⟨honward.length_eq.symm.trans h.length, hagrees, fun n l' hl' => ?_⟩
  obtain ⟨l, taken, hl, htook⟩ := Onward.getElem? honward hl'
  rw [htook.conserves, h.accounts n l hl]

theorem perform (hcount : count ≤ 16) (h : Faithful count given s) (e : Happening) :
    Faithful count (fun n => given n ++ e.supplied n) (Happening.perform s e) := by
  cases e with
  | next => simpa [Happening.supplied, Happening.perform] using h.next hcount
  | append line xs =>
    refine ⟨(List.length_modify _ _ _).trans h.length, fun k hk => ?_, fun n l' hl' => ?_⟩
    · rw [Happening.perform, h.agrees k hk, List.getElem?_modify]
      cases s.2[k]? with
      | none => rfl
      | some l =>
        by_cases hline : line = k <;> simp [hline, QueueLine.level]
    · obtain ⟨l, hl, rfl⟩ : ∃ l, s.2[n]? = some l ∧
          (if line = n then { l with queue := l.queue ++ xs } else l) = l' := by
        rw [Happening.perform, List.getElem?_modify] at hl'
        obtain ⟨l, hl, heq⟩ := Option.map_eq_some_iff.1 hl'
        exact ⟨l, hl, heq⟩
      rw [← h.accounts n l hl, Happening.supplied]
      split <;> simp

theorem performAll (hcount : count ≤ 16) (h : Faithful count given s) (es : List Happening) :
    Faithful count (fun n => given n ++ es.flatMap (Happening.supplied n))
      (es.foldl Happening.perform s) := by
  induction es generalizing given s with
  | nil => simpa using h
  | cons e es ih => simpa [List.append_assoc] using ih (h.perform hcount e)

end Faithful

/-- **The pins are the levels received last**, whatever a call has come to: after any calls and
arrivals of samples, with lines that fail when they like, a call leaves each pin at the level of the
last sample that was ever received from its line, or low if there was none.  Each line has received
its samples once and in order.  A vector carries the pins, and a call that answers with the end of
the stream has changed nothing. -/
theorem next_keeps_levels (trouble : Nat → Nat → Option {e : Halt // e ≠ .endOfStream})
    {count : Nat} (hcount : count ≤ 16) (happened : List Happening) :
    let start : Merger × List QueueLine :=
      ({}, (List.range count).map fun n => { trouble := trouble n })
    let s := happened.foldl Happening.perform start
    let (r, m', lines', _) := s.1.next s.2
    (∀ n, m'.pins.toNat.testBit n =
        ((lines'[n]?.bind fun l => l.received.getLast?).map Sample.level).getD false) ∧
      lines'.length = count ∧
      (∀ n l', lines'[n]? = some l' → ∃ l taken, s.2[n]? = some l ∧
        l'.received = l.received ++ taken ∧ l.queue = taken ++ l'.queue ∧
        l'.received ++ l'.queue = happened.flatMap (Happening.supplied n)) ∧
      (∀ v, r = .ok v → v.pins = m'.pins) ∧
      (r = .error .endOfStream → m' = s.1 ∧
        lines'.map (fun l => (l.received, l.queue)) = s.2.map fun l => (l.received, l.queue)) := by
  intro start s
  have hs : Faithful count (fun n => [] ++ happened.flatMap (Happening.supplied n)) s :=
    (Faithful.fresh trouble).performAll hcount happened
  have hcalled := hs.next hcount
  obtain ⟨r, m', lines', hnext, hagrees, honward, hvector, hend⟩ :=
    next_agrees s.1 hs.agrees (by rw [hs.length]; exact hcount)
  rw [hnext] at hcalled ⊢
  refine ⟨fun n => ?_, hcalled.length, fun n l' hl' => ?_, hvector, fun hr => ?_⟩
  · have hlevel : ((lines'[n]?.bind fun l => l.received.getLast?).map Sample.level).getD false =
        (lines'[n]?.map QueueLine.level).getD false := by
      cases lines'[n]? <;> rfl
    rw [hlevel]
    by_cases hn : n < 16
    · simpa using hagrees n (by omega)
    · have hlength : lines'.length = count := hcalled.length
      rw [List.getElem?_eq_none (by omega)]
      exact PinVector.testBit_high (Nat.le_of_not_lt hn) m'.pins
  · obtain ⟨l, taken, hl, htook⟩ := Onward.getElem? honward hl'
    exact ⟨l, taken, hl, htook.1, htook.2, hcalled.accounts n l' hl'⟩
  · obtain ⟨hm, hlooked⟩ := hend hr
    exact ⟨hm, Looked.same hlooked⟩

/-- The second of two lines fails when its sample is to be received.  By then the pin of the first
has been set, and the next call sets the other one. -/
theorem next_keeps_levels_retried :
    2 ≤ 16 ∧
      let trouble (line read : Nat) : Option {e : Halt // e ≠ .endOfStream} :=
        if line = 1 ∧ read = 2 then some ⟨.receiveFailed, by decide⟩ else none
      let lines : List QueueLine := (List.range 2).map fun n => { trouble := trouble n }
      let arrived : List Happening := [.append 0 [⟨5, true⟩, ⟨9, false⟩], .append 1 [⟨5, true⟩]]
      let s := arrived.foldl Happening.perform ({}, lines)
      let s' := (arrived ++ [Happening.next]).foldl Happening.perform ({}, lines)
      (s.1.next s.2).1 = .error .receiveFailed ∧ s'.1.pins = 1 ∧
        (s'.1.next s'.2).1 = .ok ⟨5, 3⟩ ∧
        ∀ n, (s'.1.next s'.2).2.1.pins.toNat.testBit n =
          (((s'.1.next s'.2).2.2.1[n]?.bind fun l => l.received.getLast?).map Sample.level).getD
            false := by
  refine ⟨by decide, ?_⟩
  intro trouble lines arrived s s'
  have hall := next_keeps_levels trouble (by decide : 2 ≤ 16) (arrived ++ [Happening.next])
  exact ⟨by decide +kernel, by decide +kernel, by decide +kernel, hall.1⟩

end Merger

end BusDecode
