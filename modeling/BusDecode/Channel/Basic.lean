/-!
# Channels

A channel is a first-in first-out queue of messages between a sending and a receiving end, either
of which may be gone.  Besides items it can carry a marker that says no more items will follow.
-/

set_option autoImplicit false

namespace BusDecode

/-- What travels through a channel. -/
inductive Message (α : Type) where
  | item (value : α)
  /-- no more items follow -/
  | endOfStream
  deriving Repr

/-- A queue of messages, oldest first, and which of its ends are still held. -/
structure Channel (α : Type) where
  queue : List (Message α) := []
  hasSender : Bool := true
  hasReceiver : Bool := true
  deriving Repr

namespace Channel

variable {α : Type}

/-- A channel that holds items and then, if asked for, an end marker and items behind it. -/
def ofItems (items : List α) (afterEnd : Option (List α)) : Channel α where
  queue := items.map .item ++
    match afterEnd with
    | none => []
    | some late => .endOfStream :: late.map .item

/-- Puts a message behind the others; nothing comes of it once the receiving end is gone. -/
def send? (c : Channel α) (m : Message α) : Option (Channel α) :=
  if c.hasReceiver then some { c with queue := c.queue ++ [m] } else none

/-- The sending end is given up. -/
def dropSender (c : Channel α) : Channel α :=
  { c with hasSender := false }

/-- The receiving end is given up, and what it had not taken is lost. -/
def dropReceiver (c : Channel α) : Channel α :=
  { c with hasReceiver := false, queue := [] }

/-- Takes everything that is in the channel now. -/
def drain (c : Channel α) : List (Message α) × Channel α :=
  (c.queue, { c with queue := [] })

/-- The items in the channel, leaving out end markers. -/
def itemsIn (c : Channel α) : List α :=
  c.queue.filterMap fun
    | .item a => some a
    | .endOfStream => none

/-- The items in front of the first end marker. -/
def itemsBeforeEnd : List (Message α) → List α
  | .item a :: rest => a :: itemsBeforeEnd rest
  | _ => []

end Channel

end BusDecode
