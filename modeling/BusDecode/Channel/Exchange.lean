import BusDecode.Channel.Sender

/-!
# Senders that share their channels

A sender can be cloned, and then both send to the same channels.  An exchange holds the channels and
knows each sender by the numbers of its destinations.  A broadcast goes from one destination to the
next; all it remembers on the way is whether one of them took the message and what came back last.
-/

set_option autoImplicit false

namespace BusDecode

/-- Channels, and the senders that share them. -/
structure Exchange (α : Type) where
  channels : List (Channel α)
  /-- destinations of each sender -/
  senders : List (List Nat)
  deriving Repr

/-- A broadcast on its way. -/
structure Broadcast (α : Type) where
  channels : List (Channel α)
  /-- a destination took the item -/
  anySuccess : Bool := false
  /-- the item as it came back last -/
  lastError : Option α := none

/-- How the broadcast has gone so far. -/
def Broadcast.result {α : Type} (b : Broadcast α) : Except α Unit :=
  match b.anySuccess, b.lastError with
  | false, some value => .error value
  | _, _ => .ok ()

namespace Exchange

variable {α : Type}

/-- As many channels as asked for, and one sender to all of them. -/
def fresh (count : Nat) : Exchange α where
  channels := List.replicate count {}
  senders := [List.range count]

/-! ## Broadcasting -/

/-- The channels after a message to one of them, unless nobody receives there. -/
def post? (channels : List (Channel α)) (m : Message α) (destination : Nat) :
    Option (List (Channel α)) :=
  (channels[destination]?.bind fun c => c.send? m).map fun c => channels.set destination c

/-- Offers an item to the next destination. -/
def offer (value : α) (b : Broadcast α) (destination : Nat) : Broadcast α :=
  match post? b.channels (.item value) destination with
  | some channels => { b with channels, anySuccess := true }
  | none => { b with lastError := some value }

/-- Sends an item to destinations in turn; fails with the item if it came back and nobody took
it. -/
def send (x : Exchange α) (destinations : List Nat) (value : α) : Except α Unit × Exchange α :=
  if destinations.isEmpty then (.ok (), x)
  else
    let b := destinations.foldl (offer value) { channels := x.channels }
    (b.result, { x with channels := b.channels })

/-- The channels after a message to one of them, whether or not anybody receives there. -/
def post (m : Message α) (channels : List (Channel α)) (destination : Nat) : List (Channel α) :=
  (post? channels m destination).getD channels

/-- Tells destinations in turn that no more items follow. -/
def close (x : Exchange α) (destinations : List Nat) : Exchange α :=
  { x with channels := destinations.foldl (post .endOfStream) x.channels }

/-! ## Actions -/

/-- What can be done to an exchange; senders and destinations are given by number. -/
inductive Action (α : Type) where
  | send (sender : Nat) (value : α)
  /-- sends an item through the interface of sinks -/
  | emit (sender : Nat) (value : α)
  | close (sender : Nat)
  | clone (sender : Nat)
  /-- gives up the receiving end of a destination -/
  | dropReceiver (destination : Nat)
  /-- receives everything that has arrived at a destination -/
  | drain (destination : Nat)
  deriving DecidableEq, Repr

/-- What comes back from an action. -/
inductive Answer (α : Type) where
  | sent (result : Except α Unit)
  | emitted (result : Except Halt Unit)
  | done
  /-- nothing comes from a destination whose receiving end is gone -/
  | drained (messages : Option (List (Message α)))

/-- The destinations of a sender; one that there is not has none. -/
def destinations (x : Exchange α) (sender : Nat) : List Nat :=
  x.senders[sender]?.getD []

/-- The channel of a destination as long as its receiving end is held. -/
def received? (x : Exchange α) (destination : Nat) : Option (Channel α) :=
  x.channels[destination]?.filter Channel.hasReceiver

def perform (x : Exchange α) : Action α → Answer α × Exchange α
  | .send sender value =>
    let (result, x) := x.send (x.destinations sender) value
    (.sent result, x)
  | .emit sender value =>
    let (result, x) := x.send (x.destinations sender) value
    (.emitted (Sender.sendFailure result), x)
  | .close sender => (.done, x.close (x.destinations sender))
  | .clone sender => (.done, { x with senders := x.senders ++ [x.destinations sender] })
  | .dropReceiver destination =>
    (.done, { x with channels := x.channels.modify destination Channel.dropReceiver })
  | .drain destination =>
    (.drained ((x.received? destination).map fun c => c.drain.1),
      { x with channels := x.channels.modify destination fun c => c.drain.2 })

/-- Actions in order, each with its answer, and the exchange they leave. -/
def run (x : Exchange α) : List (Action α) → List (Action α × Answer α) × Exchange α
  | [] => ([], x)
  | a :: rest =>
    let (answer, x) := x.perform a
    let (log, x) := run x rest
    ((a, answer) :: log, x)

end Exchange

end BusDecode
