import BusDecode.Graph.Basic
import BusDecode.Script.Basic
import Std.Data.HashMap

/-!
# Building graphs

A graph under construction is kept in tables: the nodes in the order they were added, the number of
each name, the terminals of each number, and the connections made so far.  Requests come one by one
and change the tables step by step; one that fails answers with an error and leaves the tables as
they are at that moment.  Anything that describes its terminals can be added.
-/

set_option autoImplicit false

namespace BusDecode

/-! ## Tables -/

/-- The terminals of a node, as they are recorded when it is added. -/
structure Schema where
  inputs : List Terminal
  outputs : List Terminal
  deriving DecidableEq, Repr

namespace Schema

def toward (s : Schema) : Direction → List Terminal
  | .input => s.inputs
  | .output => s.outputs

/-- The first terminal of a name. -/
def terminal? (s : Schema) (direction : Direction) (name : String) : Option Terminal :=
  (s.toward direction).find? fun terminal => terminal.name = name

end Schema

/-- What can be added to a graph. -/
class HasSchema (ν : Type) where
  schema : ν → Schema

instance Node.hasSchema : HasSchema Node :=
  ⟨fun node => ⟨node.inputs, node.outputs⟩⟩

/-- A graph under construction. -/
structure Builder (ν : Type) where
  /-- numbered nodes in the order they were added -/
  nodes : List (Nat × ν) := []
  /-- the number of each name -/
  numbers : Std.HashMap String Nat := ∅
  /-- the terminals of each number -/
  schemas : Std.HashMap Nat Schema := ∅
  connections : List Connection := []
  /-- the number of the next node -/
  next : Nat := 0
  /-- capacity of a connection that is made without one of its own -/
  defaultCapacity : Nat := 1000

/-- What is done to a graph under construction. -/
abbrev Building (ν ε α : Type) : Type :=
  Script (Builder ν) Empty ε α

namespace Builder

variable {ν : Type}

/-! ## Looking things up -/

def names (b : Builder ν) : List String :=
  b.numbers.keys

/-- The terminals of a named node. -/
def schemaOf (name : String) : Building ν ConnectionError Schema := do
  let schema ← Script.read fun b => b.numbers[name]?.bind fun number => b.schemas[number]?
  match schema with
  | none => Script.fail (.nodeNotFound name)
  | some schema => return schema

def findTerminal (direction : Direction) (name : TerminalName) :
    Building ν ConnectionError Terminal := do
  let schema ← schemaOf name.node
  match schema.terminal? direction name.terminal with
  | none => Script.fail (.terminalNotFound name)
  | some terminal => return terminal

/-! ## Building up -/

/-- Adds a node under a name that is not taken. -/
def add [HasSchema ν] (name : String) (node : ν) : Building ν GraphError Unit := do
  let taken ← Script.read fun b => b.numbers.contains name
  if taken then
    Script.fail (.duplicateNode name)
  else
    let number ← Script.read next
    Script.modify fun b => { b with next := number + 1 }
    Script.modify fun b => { b with
      schemas := b.schemas.insert number (HasSchema.schema node) }
    Script.modify fun b => { b with numbers := b.numbers.insert name number }
    Script.modify fun b => { b with nodes := b.nodes ++ [(number, node)] }

/-- Connects an outlet to an inlet of the same type that is still free.  An outlet may have any
number of connections. -/
def connect (source target : TerminalName) (capacity : Nat) :
    Building ν ConnectionError Unit := do
  let sends ← findTerminal .output source
  let takes ← findTerminal .input target
  let sender ← Script.read fun b => b.numbers[source.node]!
  let receiver ← Script.read fun b => b.numbers[target.node]!
  if sends.type ≠ takes.type then
    Script.fail (.typeMismatch source sends.type target takes.type)
  else
    let occupied ← Script.read fun b =>
      b.connections.any fun c => c.target = ⟨receiver, takes.index⟩
    if occupied then
      Script.fail (.duplicateConnection target)
    else
      let connection : Connection :=
        ⟨⟨sender, sends.index⟩, ⟨receiver, takes.index⟩, sends.type, capacity⟩
      Script.modify fun b => { b with connections := b.connections ++ [connection] }

def connectByDefault (source target : TerminalName) : Building ν ConnectionError Unit := do
  let capacity ← Script.read defaultCapacity
  connect source target capacity

/-! ## The graph -/

/-- The name that goes with a number. -/
def nameOf? (b : Builder ν) (number : Nat) : Option String :=
  (b.numbers.toList.find? fun entry => entry.2 = number).map Prod.fst

/-- The graph as it stands. -/
def graph (b : Builder Node) : Graph where
  nodes := b.nodes.filterMap fun entry => (b.nameOf? entry.1).map (·, entry.2)
  connections := b.connections
  defaultCapacity := b.defaultCapacity

end Builder

/-! ## Requests -/

/-- A request to a builder. -/
inductive Request (ν : Type) where
  | add (name : String) (node : ν)
  /-- without a capacity of its own the connection gets the default one -/
  | connect (source target : TerminalName) (capacity : Option Nat)

namespace Request

variable {ν : Type} [HasSchema ν]

def perform : Request ν → Building ν GraphError Unit
  | add name node => Builder.add name node
  | connect source target (some capacity) =>
    (Builder.connect source target capacity).mapError .connection
  | connect source target none => (Builder.connectByDefault source target).mapError .connection

/-- The replies to requests in order, and the builder they leave. -/
def performAll (b : Builder ν) : List (Request ν) → List (Except GraphError Unit) × Builder ν
  | [] => ([], b)
  | request :: requests =>
    let t := request.perform.run b
    let (replies, b) := performAll t.state requests
    (t.result :: replies, b)

end Request

end BusDecode
