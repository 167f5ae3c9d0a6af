import BusDecode.Graph.Builder
import BusDecode.Graph.Network

/-!
# Wiring a graph

A graph is wired in rounds.  First every connection gets its channel, whose ends wait in tables: the
receiving end under the inlet it is for, the sending end behind the others of its outlet.  Then
every node is handed the ends of its terminals, those of an outlet as one end that sends to all of
them.  Only when every node has its ends is the first of them started.  The ends are handed over
with their types hidden: whoever asks for one gets it if it asks for the right type.
-/

set_option autoImplicit false

namespace BusDecode

deriving instance Hashable for TerminalId

/-- A node as far as wiring goes: its terminals are numbered on either side from 0 on, whatever it
says of them in its description. -/
class HasTerminals (ν : Type) extends HasSchema ν where
  name : ν → String
  numInputs : ν → Nat
  numOutputs : ν → Nat

instance Node.hasTerminals : HasTerminals Node where
  name := Node.name
  numInputs node := node.inputs.length
  numOutputs node := node.outputs.length

/-! ## Ends of channels -/

/-- What a terminal is handed, its type hidden.  Channels are known by number. -/
inductive Plug where
  /-- of a terminal that is not connected -/
  | blank
  | receiving (type : ItemType) (link : Nat)
  | sending (type : ItemType) (link : Nat)
  | broadcasting (fanout : Fanout)

namespace Plug

/-- The channel to receive from, if the plug is the receiving end of one for this type. -/
def receiver? (type : ItemType) : Plug → Option Nat
  | receiving own link => if own = type then some link else none
  | _ => none

/-- The channel to send to, if the plug is the sending end of one for this type. -/
def sender? (type : ItemType) : Plug → Option Nat
  | sending own link => if own = type then some link else none
  | _ => none

/-- The channels to send to, if the plug is a broadcasting end for this type. -/
def broadcast? (type : ItemType) : Plug → Option (List Nat)
  | broadcasting fanout => if fanout.type = type then some fanout.links else none
  | _ => none

/-- The channel that an inlet with this plug reads, whatever its type. -/
def link? : Plug → Option Nat
  | receiving _ link => some link
  | _ => none

def inlet : Plug → Inlet
  | receiving type _ => .connected type {}
  | _ => .unconnected

def fanout? : Plug → Option Fanout
  | broadcasting fanout => some fanout
  | _ => none

end Plug

namespace Registry

/-- Both ends of a new channel, the sending one first, if channels can be made for this type. -/
def channel? (r : Registry) (type : ItemType) (link : Nat) : Option (Plug × Plug) :=
  if r.knows type then some (.sending type link, .receiving type link) else none

/-- One end that sends to all of several, if each of them sends items of this type. -/
def broadcast? (r : Registry) (type : ItemType) (plugs : List Plug) : Option Plug :=
  if r.knows type then
    (plugs.mapM (Plug.sender? type)).map fun links => .broadcasting ⟨type, links⟩
  else none

end Registry

/-! ## Rounds -/

/-- A node with what its terminals are handed. -/
structure Equipped (ν : Type) where
  number : Nat
  node : ν
  inputs : List Plug
  outputs : List Plug

/-- A graph that is being wired. -/
structure Bench (ν : Type) where
  /-- channels in the order they were made -/
  links : List Link := []
  /-- receiving ends that are still to be handed over -/
  receivers : Std.HashMap TerminalId Plug := ∅
  /-- sending ends that are still to be handed over, with the type of the first of each outlet -/
  senders : Std.HashMap TerminalId (ItemType × List Plug) := ∅
  /-- nodes that have their ends -/
  ready : List (Equipped ν) := []
  /-- nodes that have been started -/
  started : List (Equipped ν) := []

/-- What is done to a graph that is being wired. -/
abbrev Wiring (ν α : Type) : Type :=
  Script (Bench ν) Empty GraphError α

namespace Wiring

variable {ν : Type}

/-- Puts a sending end behind the others of its outlet. -/
def push (type : ItemType) (plug : Plug) :
    Option (ItemType × List Plug) → Option (ItemType × List Plug)
  | none => some (type, [plug])
  | some (first, plugs) => some (first, plugs ++ [plug])

/-- Makes the channel of a connection. -/
def lay (registry : Registry) (c : Connection) : Wiring ν Unit := do
  let link ← Script.read fun w => w.links.length
  match registry.channel? c.type link with
  | none => Script.fail (.unregisteredType c.type)
  | some (sender, receiver) =>
    Script.modify fun w => { w with links := w.links ++ [{ capacity := c.capacity }] }
    Script.modify fun w => { w with receivers := w.receivers.insert c.target receiver }
    Script.modify fun w => { w with senders := w.senders.alter c.source (push c.type sender) }

/-- What an inlet is handed. -/
def takeInput (id : TerminalId) : Wiring ν Plug := do
  let found ← Script.read fun w => w.receivers[id]?
  Script.modify fun w => { w with receivers := w.receivers.erase id }
  return found.getD .blank

/-- What an outlet is handed. -/
def takeOutput (registry : Registry) (id : TerminalId) : Wiring ν Plug := do
  let found ← Script.read fun w => w.senders[id]?
  Script.modify fun w => { w with senders := w.senders.erase id }
  match found with
  | none => return .blank
  | some (type, plugs) =>
    match registry.broadcast? type plugs with
    | none => Script.fail (.unregisteredType type)
    | some plug => return plug

variable [HasTerminals ν]

/-- Hands a node the ends of its terminals. -/
def equip (registry : Registry) (entry : Nat × ν) : Wiring ν Unit := do
  let (number, node) := entry
  Script.note fun _ => ⟨.debug, s!"Preparing node {number}: {HasTerminals.name node}"⟩
  let inputs ← (List.range (HasTerminals.numInputs node)).mapM fun i => takeInput ⟨number, i⟩
  let outputs ← (List.range (HasTerminals.numOutputs node)).mapM fun i =>
    takeOutput registry ⟨number, i⟩
  Script.modify fun w => { w with ready := w.ready ++ [⟨number, node, inputs, outputs⟩] }

def start (e : Equipped ν) : Wiring ν Unit := do
  Script.note fun _ => ⟨.debug, s!"Starting process node: {HasTerminals.name e.node}"⟩
  Script.modify fun w => { w with started := w.started ++ [e] }

end Wiring

/-! ## Building -/

namespace Builder

/-- Makes the channels, hands them out and starts the nodes. -/
def build {ν : Type} [HasTerminals ν] (b : Builder ν) (registry : Registry) : Wiring ν Unit := do
  Script.note fun _ => ⟨.info, s!"Building pipeline with {b.nodes.length} nodes and " ++
    s!"{b.connections.length} connections"⟩
  b.connections.forM (Wiring.lay registry)
  b.nodes.forM (Wiring.equip registry)
  let ready ← Script.read Bench.ready
  ready.forM Wiring.start
  Script.note fun w => ⟨.info, s!"Pipeline built successfully with {w.started.length} threads"⟩

end Builder

/-! ## At work -/

/-- The thread of a node, under the name that it was added under. -/
def Equipped.thread (e : Equipped Node) (key : String) : Thread :=
  Thread.launch key e.node (e.inputs.map Plug.link?) (e.inputs.map Plug.inlet)
    (e.outputs.map Plug.fanout?)

/-- The network of the nodes that have been started. -/
def Builder.network (b : Builder Node) (w : Bench Node) : Network where
  threads := w.started.map fun e => e.thread ((b.nameOf? e.number).getD "")
  links := w.links

/-- The graph at work, unless a connection has an unregistered type. -/
def Builder.launch (b : Builder Node) (registry : Registry) : Except GraphError Network :=
  let t := (b.build registry).run {}
  t.result.map fun () => b.network t.state

def Builder.launchEvents (b : Builder Node) (registry : Registry) : List Event :=
  ((b.build registry).run {}).events

end BusDecode
