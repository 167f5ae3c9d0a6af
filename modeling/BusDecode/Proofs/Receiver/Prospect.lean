import BusDecode.Proofs.CutShort

/-!
# Receivers that something is still to come for

A receiver that starves is one whose channel is empty for now.  Next to it stands the same receiver
once more has arrived (`Grown`).  Reading cannot tell the two apart until the first one starves, in
the sense of sources that break (`breaks_grown`), so what is read so far is right whatever is still
to come.
-/

set_option autoImplicit false

namespace BusDecode

namespace Receiver

variable {α : Type}

/-- What is still to come of the channel of a receiver. -/
structure Prospect (α : Type) where
  /-- whether the sender is there now -/
  isOpen : Bool
  /-- items that will arrive -/
  more : List α
  /-- whether the sender will be gone then -/
  closes : Bool

/-- The receiver once the items have arrived, and the sender is gone if so. -/
def grow (r : Receiver α) (more : List α) (closes : Bool) : Receiver α :=
  { r with channel := { r.channel with
      queue := r.channel.queue ++ more.map .item
      hasSender := r.channel.hasSender && !closes } }

/-- The second receiver is what the first one will be.  There are no end markers, what was reported
has been handed on while more may come, and nothing comes once the sender is gone. -/
structure Grown (p : Prospect α) (r r' : Receiver α) : Prop where
  grown : r' = r.grow p.more p.closes
  ended : r.ended = false
  unmarked : .endOfStream ∉ r.channel.queue
  isOpen : r.channel.hasSender = p.isOpen
  quiet : p.isOpen = true → r.journal = []
  settled : p.isOpen = false → p.more = []

/-- A receiver that has starved: its sender is there, and it has nothing to read or report. -/
structure Starved (p : Prospect α) (r : Receiver α) : Prop where
  isOpen : r.channel.hasSender = p.isOpen
  quiet : r.journal = []
  dry : r.isDry = true

variable {p : Prospect α} {r r' : Receiver α}

theorem Grown.pull (h : Grown p r r') (hbuffer : r.buffer = []) :
    Source.Abreast .starved (Starved p) (Grown p) r.pull r'.pull := by
  obtain ⟨⟨queue, hasSender, hasReceiver⟩, buffer, ended, journal⟩ := r
  obtain ⟨isOpen, more, closes⟩ := p
  obtain rfl : buffer = [] := hbuffer
  obtain ⟨rfl, rfl, hunmarked, rfl, hquiet, hsettled⟩ := h
  cases queue with
  | nil =>
    cases hasSender with
    | true => exact .inr ⟨rfl, rfl, hquiet rfl, rfl⟩
    | false =>
      obtain rfl : more = [] := hsettled rfl
      exact .inl ⟨rfl, rfl, rfl, hunmarked, rfl, nofun, fun _ => rfl⟩
  | cons message rest =>
    cases message with
    | item a =>
      exact .inl ⟨rfl, rfl, rfl, fun hmem => hunmarked (List.mem_cons_of_mem _ hmem), rfl, hquiet,
        hsettled⟩
    | endOfStream => exact absurd List.mem_cons_self hunmarked

/-- With nothing in the buffer a look pulls an item into it. -/
theorem peek_eq (hbuffer : r.buffer = []) (hended : r.ended = false) :
    Source.peek r =
      match r.pull with
      | (.ok a, s) => (.ok a, { s with buffer := [a] })
      | (.error e, s) => (.error e, s) := by
  obtain ⟨channel, buffer, ended, journal⟩ := r
  obtain rfl : buffer = [] := hbuffer
  obtain rfl : ended = false := hended
  rfl

theorem Grown.recv (h : Grown p r r') :
    Source.Abreast .starved (Starved p) (Grown p) (Source.recv r) (Source.recv r') := by
  have hpull := h.pull
  obtain ⟨channel, _ | ⟨a, rest⟩, ended, journal⟩ := r
  · obtain ⟨rfl, rfl, _⟩ := h
    exact hpull rfl
  · obtain ⟨rfl, rfl, hunmarked, hopen, hquiet, hsettled⟩ := h
    exact .inl ⟨rfl, rfl, rfl, hunmarked, hopen, hquiet, hsettled⟩

theorem Grown.peek (h : Grown p r r') :
    Source.Abreast .starved (Starved p) (Grown p) (Source.peek r) (Source.peek r') := by
  cases hbuffer : r.buffer with
  | nil =>
    have hbuffer' : r'.buffer = [] := by rw [h.grown, grow, hbuffer]
    have hended' : r'.ended = false := by rw [h.grown, grow, h.ended]
    rw [peek_eq hbuffer h.ended, peek_eq hbuffer' hended']
    obtain ⟨result, s, t, hs, ht, hrel⟩ | ⟨s, hs, hlost⟩ := (h.pull hbuffer).cases
    · rw [hs, ht]
      cases result with
      | error e => exact .inl ⟨rfl, hrel⟩
      | ok a =>
        obtain ⟨rfl, hended, hunmarked, hopen, hquiet, hsettled⟩ := hrel
        exact .inl ⟨rfl, rfl, hended, hunmarked, hopen, hquiet, hsettled⟩
    · rw [hs]
      exact .inr ⟨rfl, hlost⟩
  | cons a rest =>
    have hlook : Source.peek r = (.ok a, r) := by
      obtain ⟨channel, buffer, ended, journal⟩ := r
      obtain rfl : buffer = a :: rest := hbuffer
      rfl
    have hlook' : Source.peek r' = (.ok a, r') := by
      obtain ⟨channel, buffer, ended, journal⟩ := r
      obtain rfl : buffer = a :: rest := hbuffer
      rw [h.grown]
      rfl
    rw [hlook, hlook']
    exact .inl ⟨rfl, h⟩

/-- A receiver is what it will be if nothing comes. -/
theorem Grown.still (h : Grown p r r') : Grown ⟨p.isOpen, [], false⟩ r r := by
  refine ⟨?_, h.ended, h.unmarked, h.isOpen, h.quiet, fun _ => rfl⟩
  rw [grow, List.map_nil, List.append_nil, Bool.not_false, Bool.and_true]

/-- Some of what is to come has come; then the rest is still to come. -/
theorem Grown.part {more due : List α} {closes : Bool} (h : Grown ⟨true, more ++ due, true⟩ r r')
    (hdue : closes = true → due = []) :
    Grown ⟨true, more, closes⟩ r (r.grow more closes) ∧
      Grown ⟨!closes, due, true⟩ (r.grow more closes) r' := by
  obtain ⟨rfl, hended, hunmarked, hopen, hquiet, -⟩ := h
  have hquiet : r.journal = [] := hquiet rfl
  refine ⟨⟨rfl, hended, hunmarked, hopen, fun _ => hquiet, nofun⟩,
    ⟨?_, hended, ?_, ?_, fun _ => hquiet, fun hclosed => hdue (by simpa using hclosed)⟩⟩
  · simp [grow]
  · simpa [grow] using hunmarked
  · simp [grow, hopen]

/-- **A receiver reads as what it will be**, until it starves. -/
theorem breaks_grown : Source.Breaks .starved (Starved p) (Grown p) where
  recv _ _ h := h.recv
  peek _ _ h := h.peek
  takeEvents r _ h := by
    obtain ⟨rfl, hended, hunmarked, hopen, hquiet, hsettled⟩ := h
    exact ⟨rfl, rfl, hended, hunmarked, hopen, fun _ => rfl, hsettled⟩
  silent r h := by
    obtain ⟨channel, buffer, ended, journal⟩ := r
    obtain rfl : journal = [] := h.quiet
    rfl

end Receiver

end BusDecode
