import BusDecode.Annotation
import BusDecode.PinVector
import BusDecode.Sample
import BusDecode.Spi

/-!
# Items of a graph

The streams of a graph carry items of different types.  A terminal names its type, and an item knows
its own, so the two can be compared when a graph is wired.
-/

set_option autoImplicit false

namespace BusDecode

/-- The types of items that streams carry. -/
inductive ItemType where
  | samples
  | vectors
  | packets
  | annotations
  | texts
  | numbers
  deriving DecidableEq, Repr

namespace ItemType

/-- The items of a type. -/
@[reducible] def Carrier : ItemType → Type
  | samples => Sample
  | vectors => PinVector
  | packets => Spi.Packet
  | annotations => Annotation
  | texts => String
  | numbers => Nat

/-- All types. -/
def all : List ItemType :=
  [samples, vectors, packets, annotations, texts, numbers]

/-- Name of a type. -/
def name : ItemType → String
  | samples => "sample"
  | vectors => "logic"
  | packets => "spi"
  | annotations => "annotation"
  | texts => "text"
  | numbers => "number"

/-- The type of a name. -/
def ofName? (name : String) : Option ItemType :=
  all.find? fun t => t.name = name

end ItemType

/-- An item together with its type. -/
structure Item where
  type : ItemType
  value : type.Carrier

namespace Item

/-- The value as one of a given type, if that is its type. -/
def as? (type : ItemType) (item : Item) : Option type.Carrier :=
  if h : item.type = type then some (h ▸ item.value) else none

@[simp] theorem as?_mk (type : ItemType) (value : type.Carrier) :
    (Item.mk type value).as? type = some value := by
  simp [as?]

end Item

end BusDecode
