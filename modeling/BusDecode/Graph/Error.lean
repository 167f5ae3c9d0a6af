import BusDecode.Graph.Item

/-!
# Errors of graphs

Why two terminals cannot be connected, and why a graph cannot be extended, started or finished.
-/

set_option autoImplicit false

namespace BusDecode

/-- A terminal of a named node. -/
structure TerminalName where
  node : String
  terminal : String
  deriving DecidableEq, Repr

/-- Why two terminals cannot be connected. -/
inductive ConnectionError where
  | nodeNotFound (node : String)
  | terminalNotFound (name : TerminalName)
  /-- the inlet already has a source -/
  | duplicateConnection (name : TerminalName)
  | typeMismatch (source : TerminalName) (sends : ItemType)
      (target : TerminalName) (takes : ItemType)
  deriving DecidableEq, Repr

namespace ConnectionError

/-- Wording of a connection error. -/
def message : ConnectionError → String
  | nodeNotFound node => s!"Node '{node}' not found"
  | terminalNotFound name => s!"Port '{name.terminal}' not found on node '{name.node}'"
  | duplicateConnection name =>
    s!"Input port '{name.terminal}' on node '{name.node}' is already connected"
  | typeMismatch source sends target takes =>
    s!"Type mismatch: {source.node}.{source.terminal} ({sends.name}) -> " ++
      s!"{target.node}.{target.terminal} ({takes.name})"

end ConnectionError

/-- What can go wrong with a graph. -/
inductive GraphError where
  /-- the name is taken -/
  | duplicateNode (node : String)
  | connection (error : ConnectionError)
  /-- no channels can be made for items of this type -/
  | unregisteredType (type : ItemType)
  | nodeFailed (node : String) (reason : String)
  deriving DecidableEq, Repr

namespace GraphError

/-- Wording of a graph error. -/
def message : GraphError → String
  | duplicateNode node => s!"Node with name '{node}' already exists"
  | connection error => error.message
  | unregisteredType type => s!"Type {type.name} not registered."
  | nodeFailed node reason => s!"Node '{node}' failed: {reason}"

end GraphError

end BusDecode
