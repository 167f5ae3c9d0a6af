import BusDecode.Script.Basic
import BusDecode.Stream.Sink

/-!
# Playing a run to a sink

A run of a script is a list of effects.  Playing it offers the items to a sink in order.  If the
sink refuses one, everything after it is as if it had not happened: the run ends with the sink's
reason, in the state that stands next to the refused item.
-/

set_option autoImplicit false

namespace BusDecode

/-- A run as it looks once a sink has taken part in it. -/
structure Played (δ κ α : Type) where
  result : Except Halt α
  state : δ
  sink : κ
  events : List Event

namespace Played

variable {δ γ κ α α' : Type}

/-- The same run seen from another kind of state. -/
def mapState (f : δ → γ) (p : Played δ κ α) : Played γ κ α :=
  ⟨p.result, f p.state, p.sink, p.events⟩

/-- The same run with its result read in another way. -/
def mapResult (f : Except Halt α → Except Halt α') (p : Played δ κ α) : Played δ κ α' :=
  ⟨f p.result, p.state, p.sink, p.events⟩

/-- Events reported before and after the run. -/
def between (before : List Event) (p : Played δ κ α) (after : List Event) : Played δ κ α :=
  { p with events := before ++ p.events ++ after }

end Played

namespace Trace

variable {δ κ β α : Type}

/-- Offers the remaining effects to the sink; `done` are the events so far, latest first. -/
def playFrom [Sink κ β] (result : Except Halt α) (state : δ) :
    List (Effect δ β) → κ → List Event → Played δ κ α
  | [], sink, done => ⟨result, state, sink, done.reverse⟩
  | .note event :: rest, sink, done => playFrom result state rest sink (event :: done)
  | .emit item fallback :: rest, sink, done =>
    match Sink.emit sink item with
    | (.ok (), sink) => playFrom result state rest sink done
    | (.error e, sink) => ⟨.error e, fallback, sink, done.reverse⟩

/-- Offers the items of a run to a sink, up to the first refusal. -/
def play [Sink κ β] (t : Trace δ β Halt α) (sink : κ) : Played δ κ α :=
  playFrom t.result t.state t.effects sink []

end Trace

end BusDecode
