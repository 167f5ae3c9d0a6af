import BusDecode.Channel.Receiver
import BusDecode.Channel.Sender
import BusDecode.Graph.Item

/-!
# Terminals

A node has numbered, named and typed terminals, on its input side and on its output side.  At work,
an inlet holds a receiver and an outlet a sender, of the type it is connected at; one that is not
connected, or asked for another type, has none to give.
-/

set_option autoImplicit false

namespace BusDecode

/-- Direction of a terminal as seen from its node. -/
inductive Direction where
  | input
  | output
  deriving DecidableEq, Repr

def Direction.name : Direction → String
  | input => "Input"
  | output => "Output"

structure Terminal where
  name : String
  type : ItemType
  index : Nat
  direction : Direction
  deriving DecidableEq, Repr

namespace Terminal

/-- Terminals of one direction, numbered in order. -/
def number (direction : Direction) (terminals : List (String × ItemType)) : List Terminal :=
  terminals.mapIdx fun index terminal => ⟨terminal.1, terminal.2, index, direction⟩

end Terminal

inductive Inlet where
  | unconnected
  | connected (type : ItemType) (receiver : Receiver type.Carrier)

namespace Inlet

/-- The receiver, if the inlet is connected at this type. -/
def receiver? (type : ItemType) : Inlet → Option (Receiver type.Carrier)
  | unconnected => none
  | connected own receiver => if h : own = type then some (h ▸ receiver) else none

@[simp] theorem receiver?_connected (type : ItemType) (receiver : Receiver type.Carrier) :
    (connected type receiver).receiver? type = some receiver := by
  simp [receiver?]

def ofChannel (type : ItemType) (channel : Channel type.Carrier) : Inlet :=
  connected type { channel }

/-- An item arrives in the channel of the inlet; one of another type does not fit. -/
def deliver (item : Item) : Inlet → Inlet
  | unconnected => unconnected
  | connected type receiver =>
    match item.as? type with
    | some value =>
      connected type { receiver with
        channel.queue := receiver.channel.queue ++ [.item value] }
    | none => connected type receiver

def close : Inlet → Inlet
  | unconnected => unconnected
  | connected type receiver =>
    connected type { receiver with channel := receiver.channel.dropSender }

/-- Whether a read from the inlet would find nothing yet although more may come. -/
def isDry : Inlet → Bool
  | unconnected => false
  | connected _ receiver => receiver.isDry

def label : String := "InputPort"

end Inlet

inductive Outlet where
  | unconnected
  | connected (type : ItemType) (sender : Sender type.Carrier)

namespace Outlet

/-- The type at which the outlet is connected. -/
def type? : Outlet → Option ItemType
  | unconnected => none
  | connected type _ => some type

/-- The sender, if the outlet is connected at this type. -/
def sender? (type : ItemType) : Outlet → Option (Sender type.Carrier)
  | unconnected => none
  | connected own sender => if h : own = type then some (h ▸ sender) else none

/-- The receiving end of one destination is given up. -/
def dropReceiver (i : Nat) : Outlet → Outlet
  | unconnected => unconnected
  | connected type sender => connected type (sender.dropReceiver i)

/-- Takes everything that has arrived at the destinations; nothing is left to take at those whose
receiving end is gone. -/
def collect : Outlet → List (Option (List Item)) × Outlet
  | unconnected => ([], unconnected)
  | connected type sender =>
    (sender.destinations.map fun c =>
        if c.hasReceiver then some (c.itemsIn.map (Item.mk type)) else none,
      connected type ⟨sender.destinations.map fun c => c.drain.2⟩)

def label : String := "OutputPort"

/-- Sends an item out of the first of several outlets. -/
def emitFirst (outlets : List Outlet) (item : Item) : Except Halt Unit × List Outlet :=
  match outlets with
  | [] => (.error (.sendFailed Halt.closedChannel), [])
  | outlet :: rest =>
    match outlet.sender? item.type with
    | none => (.error (.sendFailed Halt.closedChannel), outlet :: rest)
    | some sender =>
      let (result, sender) := Sink.emit sender item.value
      (result, connected item.type sender :: rest)

/-- The outlets of a node as a sink: every node writes to its first outlet only. -/
instance sink : Sink (List Outlet) Item where
  emit := emitFirst

end Outlet

end BusDecode
