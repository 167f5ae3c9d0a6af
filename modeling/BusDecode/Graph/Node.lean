import BusDecode.Graph.Terminal
import BusDecode.Hvsp.Decoder
import BusDecode.Max7219
import BusDecode.Mcp23s17
import BusDecode.Merger
import BusDecode.Updi.Command

/-!
# Nodes

A node works call by call: each call reads some items from its inlets, may write items to its
first outlet, and answers with a count of what it produced or with the reason why it stops.
There are the decoders, a replay that feeds a recorded stream in, a collector and a store that keep
what they receive, and a node that fails after a number of calls.
-/

set_option autoImplicit false

namespace BusDecode

/-- The nodes of a graph, each with what it remembers between two calls. -/
inductive Node where
  | hvsp (decoder : Hvsp.Decoder) (merger : Merger)
  | updi (decoder : Updi.Decoder)
  | mcp23s17 (decoder : Mcp23s17.Decoder)
  | max7219 (decoder : Max7219.Decoder)
  /-- keeps annotations in the order of their arrival -/
  | collector (name : String) (collected : Array Annotation)
  /-- sends recorded items, one a call -/
  | replay (name : String) (type : ItemType) (items : List type.Carrier) (sent : Nat)
  /-- keeps items of one type in the order of their arrival -/
  | store (name : String) (type : ItemType) (kept : Array type.Carrier)
  /-- succeeds a number of times and then fails -/
  | failing (name : String) (rounds : Nat) (reason : String)

namespace Node

/-! ## Description -/

def name : Node → String
  | hvsp decoder _ => decoder.name
  | updi decoder => decoder.name
  | mcp23s17 decoder => decoder.name
  | max7219 decoder => decoder.name
  | collector name _ => name
  | replay name _ _ _ => name
  | store name _ _ => name
  | failing name _ _ => name

def inputs : Node → List Terminal
  | hvsp _ _ => Terminal.number .input
      [("sci", .samples), ("sii", .samples), ("sdi", .samples), ("sdo", .samples)]
  | updi _ => Terminal.number .input [("updi", .samples)]
  | mcp23s17 _ => Terminal.number .input [("spi", .packets)]
  | max7219 _ => Terminal.number .input [("spi", .packets)]
  | collector _ _ => Terminal.number .input [("annotations", .annotations)]
  | replay _ _ _ _ => []
  | store _ type _ => Terminal.number .input [("in", type)]
  | failing _ _ _ => []

def outputs : Node → List Terminal
  | hvsp _ _ => Terminal.number .output [("annotations", .annotations)]
  | updi _ => Terminal.number .output [("annotations", .annotations)]
  | mcp23s17 _ => Terminal.number .output [("annotations", .annotations)]
  | max7219 _ => Terminal.number .output [("annotations", .annotations)]
  | collector _ _ => []
  | replay _ type _ _ => Terminal.number .output [("out", type)]
  | store _ _ _ => []
  | failing _ _ _ => []

/-- What a node that keeps its input has kept. -/
def kept? : Node → Option (List Item)
  | collector _ collected => some (collected.toList.map (Item.mk .annotations))
  | store _ type kept => some (kept.toList.map (Item.mk type))
  | _ => none

/-! ## Calls -/

abbrev State : Type :=
  Node × List Inlet

/-- A call: the items it writes go to the first outlet. -/
abbrev Call : Type :=
  Trace State Item Halt Nat

/-- A call that stops before it has done anything. -/
def stuck (reason : String) (s : State) : Call :=
  ⟨.error (.nodeFailed reason), s, []⟩

/-- The receiver of the first inlet, if it is connected at this type. -/
def firstReceiver? (type : ItemType) (inlets : List Inlet) : Option (Receiver type.Carrier) :=
  inlets.head?.bind fun inlet => inlet.receiver? type

/-- Whether the first outlet is connected at this type. -/
def writes (type : ItemType) (targets : List (Option ItemType)) : Prop :=
  targets.head? = some (some type)

instance (type : ItemType) (targets : List (Option ItemType)) : Decidable (writes type targets) :=
  inferInstanceAs (Decidable (targets.head? = some (some type)))

def putFirst (type : ItemType) (receiver : Receiver type.Carrier) (inlets : List Inlet) :
    List Inlet :=
  .connected type receiver :: inlets.tail

/-- A run that annotates, as a call that writes annotations. -/
def annotating {δ α : Type} (t : Trace δ Annotation Halt α) (state : δ → State) (count : α → Nat) :
    Call :=
  let t := (t.mapState state).mapItem (Item.mk .annotations)
  ⟨t.result.map count, t.state, t.effects⟩

/-- Reads the first inlet; what to do with the item is up to `next`, the rest is the same for
every node that reads one item a call. -/
def reading (type : ItemType) (missing : String) (node : Node) (inlets : List Inlet)
    (next : type.Carrier → List Inlet → Call) : Call :=
  match firstReceiver? type inlets with
  | none => stuck missing (node, inlets)
  | some receiver =>
    let (item, receiver) := Source.recv receiver
    let (events, receiver) := Source.takeEvents receiver
    let inlets := putFirst type receiver inlets
    match item with
    | .error e => ⟨.error e, (node, inlets), events.map .note⟩
    | .ok item => (next item inlets).after (events.map .note)

/-- A call of a UPDI decoder takes one step; it counts the commands completed. -/
def workUpdi (targets : List (Option ItemType)) (d : Updi.Decoder) (inlets : List Inlet) :
    Call :=
  match firstReceiver? .samples inlets with
  | none => stuck "Missing UPDI input" (.updi d, inlets)
  | some line =>
    if writes .annotations targets then
      let t := (Updi.Decoder.step (σ := Receiver Sample)).run ⟨d, line⟩
      annotating t (fun s => (.updi s.decoder, putFirst .samples s.source inlets)) fun () =>
        t.state.decoder.stats.commands - d.stats.commands
    else stuck "Missing annotation output" (.updi d, inlets)

/-- A call of an HVSP decoder merges its lines up to the next change and takes the pin vector; it
counts an instruction. -/
def workHvsp (targets : List (Option ItemType)) (d : Hvsp.Decoder) (m : Merger)
    (inlets : List Inlet) : Call :=
  if writes .annotations targets then
    match (inlets.take 4).mapM fun inlet => inlet.receiver? .samples with
    | none => stuck "Missing HVSP line input" (.hvsp d m, inlets)
    | some lines =>
      let (vector, m, lines, events) := m.next lines
      let inlets := lines.map (Inlet.connected .samples) ++ inlets.drop 4
      match vector with
      | .error e => ⟨.error e, (.hvsp d m, inlets), events.map .note⟩
      | .ok v =>
        let t := (Hvsp.Decoder.feed v).run d
        (annotating t (fun d => (.hvsp d m, inlets)) fun () =>
          if t.state.instructions = d.instructions then 0 else 1).after (events.map .note)
  else stuck "Missing annotation output" (.hvsp d m, inlets)

/-- A call of a decoder of SPI packets takes one packet.  The packet is read before the outlet
is looked at. -/
def workSpi {δ : Type} (targets : List (Option ItemType)) (node : δ → Node)
    (feed : Spi.Packet → Script δ Annotation Halt Unit) (d : δ) (inlets : List Inlet) : Call :=
  reading .packets "Missing SPI input" (node d) inlets fun packet inlets =>
    if writes .annotations targets then
      annotating ((feed packet).run d) (fun d => (node d, inlets)) fun () => 1
    else stuck "Missing annotation output" (node d, inlets)

def workCollector (name : String) (collected : Array Annotation) (inlets : List Inlet) : Call :=
  reading .annotations "Missing annotation input" (.collector name collected) inlets fun a inlets =>
    ⟨.ok 1, (.collector name (collected.push a), inlets), [.note (.told name .trace a.describe)]⟩

def workStore (name : String) (type : ItemType) (kept : Array type.Carrier)
    (inlets : List Inlet) : Call :=
  reading type "Missing sink input" (.store name type kept) inlets fun item inlets =>
    ⟨.ok 1, (.store name type (kept.push item), inlets), []⟩

/-- A call of a replay sends one item.  The item is gone even if nobody takes it; it is counted as
sent only if somebody does. -/
def workReplay (targets : List (Option ItemType)) (name : String) (type : ItemType)
    (items : List type.Carrier) (sent : Nat) (inlets : List Inlet) : Call :=
  if writes type targets then
    match items with
    | [] =>
      ⟨.error .endOfStream, (.replay name type [] sent, inlets),
        [.note (.told name .debug s!"Replayed {sent} items")]⟩
    | item :: rest =>
      ⟨.ok 1, (.replay name type rest (sent + 1), inlets),
        [.emit ⟨type, item⟩ (.replay name type rest sent, inlets)]⟩
  else stuck "Missing replay output" (.replay name type items sent, inlets)

/-- A call of a failing node uses up a round, or fails when there is none. -/
def workFailing (name : String) (rounds : Nat) (reason : String) (inlets : List Inlet) : Call :=
  match rounds with
  | 0 => stuck reason (.failing name 0 reason, inlets)
  | n + 1 => ⟨.ok 1, (.failing name n reason, inlets), []⟩

/-- One call of a node whose outlets are connected at the given types. -/
def work (targets : List (Option ItemType)) : State → Call
  | (hvsp decoder merger, inlets) => workHvsp targets decoder merger inlets
  | (updi decoder, inlets) => workUpdi targets decoder inlets
  | (mcp23s17 decoder, inlets) => workSpi targets mcp23s17 Mcp23s17.Decoder.feed decoder inlets
  | (max7219 decoder, inlets) => workSpi targets max7219 Max7219.Decoder.feed decoder inlets
  | (collector name collected, inlets) => workCollector name collected inlets
  | (replay name type items sent, inlets) => workReplay targets name type items sent inlets
  | (store name type kept, inlets) => workStore name type kept inlets
  | (failing name rounds reason, inlets) => workFailing name rounds reason inlets

/-- One call of a node that writes to its outlets as it goes. -/
def workOn (node : Node) (inlets : List Inlet) (outputs : List Outlet) :
    Played State (List Outlet) Nat :=
  (work (outputs.map Outlet.type?) (node, inlets)).play outputs

end Node

end BusDecode
