import BusDecode.PinVector
import BusDecode.Sample
import BusDecode.Stream.Source

/-!
# Merging lines

Several single-line streams become one stream of pin vectors: each step finds the earliest time
at which any line has a sample waiting and applies every sample up to that time, line `n` to pin
`n`.  A line that has ended holds its last level.
-/

set_option autoImplicit false

namespace BusDecode

/-- The levels of all lines as of the samples applied so far. -/
structure Merger where
  pins : UInt16 := 0
  deriving DecidableEq, Repr

namespace Merger

variable {σ : Type} [Source σ Sample]

/-- Time of the sample a line has waiting, if it has not ended. -/
def headTime (s : σ) : Except Halt (Option Nat) × σ × List Event :=
  let (head, s) := Source.peek? s
  let (events, s) := Source.takeEvents s
  (head.map (Option.map Sample.time), s, events)

/-- The smaller of two times, either of which may be missing. -/
def earlier : Option Nat → Option Nat → Option Nat
  | some t, some u => some (min t u)
  | some t, none => some t
  | none, u => u

/-- The earliest time at which a line has a sample waiting. -/
def earliest : List σ → Except Halt (Option Nat) × List σ × List Event
  | [] => (.ok none, [], [])
  | s :: rest =>
    match headTime s with
    | (.error e, s, events) => (.error e, s :: rest, events)
    | (.ok t, s, events) =>
      match earliest rest with
      | (.error e, rest, events') => (.error e, s :: rest, events ++ events')
      | (.ok u, rest, events') => (.ok (earlier t u), s :: rest, events ++ events')

theorem size_headTime_le (s : σ) : Source.size (headTime s).2.1 ≤ Source.size s :=
  Nat.le_trans (Source.size_takeEvents_le (Source.peek? s).2) (Source.size_peek?_le s)

/-- Applies the samples of one line up to a time, after the events in `told`. -/
def drainLine (line time : Nat) (pins : UInt16) (s : σ) (told : List Event) :
    Except Halt Unit × UInt16 × σ × List Event :=
  match hh : headTime s with
  | (.error e, s', events) => (.error e, pins, s', told ++ events)
  | (.ok none, s', events) => (.ok (), pins, s', told ++ events)
  | (.ok (some t), s', events) =>
    if time < t then (.ok (), pins, s', told ++ events) else
    match hr : Source.recv s' with
    | (.error e, s'') => (.error e, pins, s'', told ++ events)
    | (.ok x, s'') =>
      have : Source.size s'' < Source.size s := by
        have hle := size_headTime_le s
        have hlt := Source.size_recv_lt (s := s') (a := x) (by rw [hr])
        rw [hh] at hle
        rw [hr] at hlt
        exact Nat.lt_of_lt_of_le hlt hle
      drainLine line time (PinVector.setPin pins line x.level) s'' (told ++ events)
termination_by Source.size s

/-- Applies the samples of all lines up to a time, the first line being number `line`. -/
def drain (time line : Nat) (pins : UInt16) :
    List σ → Except Halt Unit × UInt16 × List σ × List Event
  | [] => (.ok (), pins, [], [])
  | s :: rest =>
    match drainLine line time pins s [] with
    | (.error e, pins, s, events) => (.error e, pins, s :: rest, events)
    | (.ok (), pins, s, events) =>
      let (result, pins, rest, events') := drain time (line + 1) pins rest
      (result, pins, s :: rest, events ++ events')

/-- The next pin vector; the end of the stream once every line has ended. -/
def next (m : Merger) (lines : List σ) :
    Except Halt PinVector × Merger × List σ × List Event :=
  match earliest lines with
  | (.error e, lines, events) => (.error e, m, lines, events)
  | (.ok none, lines, events) => (.error .endOfStream, m, lines, events)
  | (.ok (some time), lines, events) =>
    let (result, pins, lines, events') := drain time 0 m.pins lines
    (result.map fun () => ⟨time, pins⟩, ⟨pins⟩, lines, events ++ events')

end Merger

end BusDecode
