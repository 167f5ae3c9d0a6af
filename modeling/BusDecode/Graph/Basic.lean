import BusDecode.Graph.Error
import BusDecode.Graph.Node

/-!
# Graphs

A graph is a list of named nodes and a list of connections between their terminals.  Nodes are
known by their position from then on.  A request that fails leaves the graph as it is, since it
answers with an error in place of a graph; the errors come in a fixed order, from the source of the
connection to the occupancy of its target.
-/

set_option autoImplicit false

namespace BusDecode

/-- A terminal of a node, both by position. -/
structure TerminalId where
  node : Nat
  terminal : Nat
  deriving DecidableEq, Repr

/-- A channel to be made: from an outlet to an inlet of the same type. -/
structure Connection where
  source : TerminalId
  target : TerminalId
  type : ItemType
  /-- number of items the channel holds before a sender has to wait -/
  capacity : Nat
  deriving DecidableEq, Repr

/-- Named nodes in the order they were added, and connections in the order they were made. -/
structure Graph where
  nodes : List (String × Node) := []
  connections : List Connection := []
  /-- capacity of a connection that is made without one of its own -/
  defaultCapacity : Nat := 1000

namespace Graph

/-! ## Looking things up -/

def names (g : Graph) : List String :=
  g.nodes.map Prod.fst

def find? (g : Graph) (name : String) : Option (Nat × Node) :=
  (g.nodes.zipIdx.find? fun entry => entry.1.1 = name).map fun entry => (entry.2, entry.1.2)

def terminalsOf (direction : Direction) (node : Node) : List Terminal :=
  match direction with
  | .input => node.inputs
  | .output => node.outputs

def terminals (g : Graph) (direction : Direction) (name : String) :
    Except ConnectionError (List Terminal) :=
  match g.find? name with
  | none => .error (.nodeNotFound name)
  | some (_, node) => .ok (terminalsOf direction node)

/-- Position of a named node, and its terminal of a given name. -/
def findTerminal (g : Graph) (direction : Direction) (name : TerminalName) :
    Except ConnectionError (Nat × Terminal) :=
  match g.find? name.node with
  | none => .error (.nodeNotFound name.node)
  | some (id, node) =>
    match (terminalsOf direction node).find? fun terminal => terminal.name = name.terminal with
    | none => .error (.terminalNotFound name)
    | some terminal => .ok (id, terminal)

/-- Whether some connection already ends at an inlet. -/
def isOccupied (g : Graph) (target : TerminalId) : Bool :=
  g.connections.any fun c => c.target = target

/-! ## Building up -/

/-- Adds a node under a name that is not taken. -/
def add (g : Graph) (name : String) (node : Node) : Except GraphError Graph :=
  if name ∈ g.names then .error (.duplicateNode name)
  else .ok { g with nodes := g.nodes ++ [(name, node)] }

/-- Connects an outlet to an inlet of the same type that is still free.  An outlet may have any
number of connections. -/
def connect (g : Graph) (source target : TerminalName) (capacity : Nat) :
    Except ConnectionError Graph := do
  let (sender, sends) ← g.findTerminal .output source
  let (receiver, takes) ← g.findTerminal .input target
  if sends.type ≠ takes.type then
    throw (.typeMismatch source sends.type target takes.type)
  else if g.isOccupied ⟨receiver, takes.index⟩ then
    throw (.duplicateConnection target)
  else
    let connection : Connection :=
      ⟨⟨sender, sends.index⟩, ⟨receiver, takes.index⟩, sends.type, capacity⟩
    return { g with connections := g.connections ++ [connection] }

def connectByDefault (g : Graph) (source target : TerminalName) : Except ConnectionError Graph :=
  g.connect source target g.defaultCapacity

end Graph

/-! ## Types of channels -/

/-- The item types that channels can be made for. -/
structure Registry where
  types : List ItemType
  deriving DecidableEq, Repr

namespace Registry

def standard : Registry :=
  ⟨[.samples, .vectors, .packets, .annotations]⟩

def register (r : Registry) (type : ItemType) : Registry :=
  ⟨type :: r.types⟩

def knows (r : Registry) (type : ItemType) : Bool :=
  r.types.contains type

end Registry

end BusDecode
