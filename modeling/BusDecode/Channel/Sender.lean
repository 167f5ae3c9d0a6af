import BusDecode.Channel.Basic
import BusDecode.Stream.Sink

/-!
# Senders

A sender broadcasts: every message goes to each of its destinations in turn.  Sending an item
fails only if there are destinations and none of them could take it, and then the item comes back.
-/

set_option autoImplicit false

namespace BusDecode

/-- The sending ends of any number of channels. -/
structure Sender (α : Type) where
  destinations : List (Channel α) := []
  deriving Repr

namespace Sender

variable {α : Type}

/-- A message reaches every destination that still has its receiving end. -/
def broadcast (s : Sender α) (m : Message α) : Sender α :=
  ⟨s.destinations.map fun c => (c.send? m).getD c⟩

/-- Whether a message sent now would be taken by nobody although it has somewhere to go. -/
def isForsaken (s : Sender α) : Bool :=
  !s.destinations.isEmpty && s.destinations.all fun c => !c.hasReceiver

/-- Sends an item to every destination; fails with the item if nobody took it. -/
def send (s : Sender α) (value : α) : Except α Unit × Sender α :=
  (if s.isForsaken then .error value else .ok (), s.broadcast (.item value))

/-- Tells every destination that no more items follow. -/
def close (s : Sender α) : Sender α :=
  s.broadcast .endOfStream

/-- Number of destinations, whether or not they are still received from. -/
def numDestinations (s : Sender α) : Nat :=
  s.destinations.length

/-- Whether there is any destination. -/
def isConnected (s : Sender α) : Bool :=
  !s.destinations.isEmpty

/-- The receiving end of one destination is given up. -/
def dropReceiver (s : Sender α) (i : Nat) : Sender α :=
  ⟨s.destinations.modify i Channel.dropReceiver⟩

/-- What a failed send means to whoever emitted the item. -/
def sendFailure : Except α Unit → Except Halt Unit
  | .ok () => .ok ()
  | .error _ => .error (.sendFailed Halt.closedChannel)

/-- Broadcasting as a sink. -/
instance sink : Sink (Sender α) α where
  emit s value :=
    let (result, s) := s.send value
    (sendFailure result, s)

end Sender

end BusDecode
