import BusDecode.Graph.Basic

/-!
# Graphs at work

A network is a graph at work: one thread for each node and one link for each connection.  A link is
a queue of limited length.  A thread calls its node over and over; a call may have to wait for an
item to arrive or for room in a link, and goes on once there is one.  When its node stops, a thread
gives up the sending ends it holds, then the receiving ends, and then reports how it went.

`Network.step` says what one thread can do next; any thread that can do something may be the next
to do it.  A call that waits is kept as the state it started in together with everything that has
arrived since, and is planned anew on each arrival.
-/

set_option autoImplicit false

namespace BusDecode

/-- A connection at work. -/
structure Link where
  capacity : Nat
  channel : Channel Item := {}

/-- The links of a connected outlet, in the order of its connections. -/
structure Fanout where
  type : ItemType
  links : List Nat

/-- Something a thread does that others can notice. -/
inductive Deed where
  /-- offers an item to a link -/
  | offer (link : Nat) (item : Item)
  /-- goes on if the item offered before was taken by any link -/
  | confirm
  /-- gives up the sending end of a link -/
  | hangUp (link : Nat)
  /-- gives up the receiving end of a link -/
  | turnAway (link : Nat)
  /-- reports the end of the work, and why it failed if it did -/
  | report (failure : Option String)

/-- Where a thread stands. -/
inductive Stage where
  | working
  /-- the node has stopped -/
  | leaving
  /-- the node broke down, which nobody gets a report of -/
  | crashed
  deriving DecidableEq, Repr

/-- A node at work. -/
structure Thread where
  /-- name of the node in the graph -/
  key : String
  /-- name that the node reports under -/
  name : String
  /-- link of each inlet -/
  feeds : List (Option Nat)
  /-- links of each outlet -/
  fanouts : List (Option Fanout)
  /-- the node and its inlets as the present call found them, and what has arrived since -/
  start : Node.State
  /-- the present call as far as it gets with that -/
  call : Node.Call
  /-- deeds that are next -/
  todo : List Deed
  /-- number of deeds of the present call that are done -/
  done : Nat := 0
  /-- whether a link took the item offered last -/
  taken : Bool := false
  stage : Stage := .working

namespace Thread

/-! ## Calls -/

def targetTypes (fanouts : List (Option Fanout)) : List (Option ItemType) :=
  fanouts.map (Option.map Fanout.type)

def firstLinks (fanouts : List (Option Fanout)) : List Nat :=
  match fanouts.head? with
  | some (some fanout) => fanout.links
  | _ => []

/-- What a call does that others can notice. -/
def deeds (fanouts : List (Option Fanout)) (call : Node.Call) : List Deed :=
  call.items.flatMap fun item =>
    (firstLinks fanouts).map (Deed.offer · item) ++ [.confirm]

/-- A call to begin, or one that goes on because something has arrived. -/
def resume (t : Thread) (start : Node.State) (done : Nat) : Thread :=
  let call := Node.work (targetTypes t.fanouts) start
  { t with start, call, done, todo := (deeds t.fanouts call).drop done }

/-- The thread of a node that has not been called yet. -/
def launch (key : String) (node : Node) (feeds : List (Option Nat)) (inlets : List Inlet)
    (fanouts : List (Option Fanout)) : Thread :=
  let call := Node.work (targetTypes fanouts) (node, inlets)
  { key, feeds, fanouts, call
    name := node.name
    start := (node, inlets)
    todo := deeds fanouts call }

def advance (t : Thread) : Thread :=
  { t with todo := t.todo.tail, done := t.done + 1 }

/-! ## Waiting -/

/-- The inlet that the present call waits at. -/
def dryInlet? (t : Thread) : Option Nat :=
  t.call.state.2.findIdx? Inlet.isDry

/-- Whether the present call has done all it can and cannot go on. -/
def isStarved (t : Thread) : Bool :=
  t.stage = .working && t.todo.isEmpty &&
    match t.call.result with
    | .error .starved => true
    | _ => false

/-- The link that the thread waits at for an item. -/
def awaited? (t : Thread) : Option Nat :=
  if t.isStarved then
    match t.dryInlet? with
    | some inlet => (t.feeds[inlet]?).join
    | none => none
  else none

/-- An inlet has changed; the present call goes on with it. -/
def touch (t : Thread) (inlet : Nat) (change : Inlet → Inlet) : Thread :=
  t.resume (t.start.1, t.start.2.modify inlet change) t.done

/-! ## Leaving -/

/-- Giving up every end of a link that the thread holds, outputs first. -/
def farewell (t : Thread) : List Deed :=
  (t.fanouts.filterMap id).flatMap (fun fanout => fanout.links.map Deed.hangUp) ++
    (t.feeds.filterMap id).map Deed.turnAway

/-- The node has stopped; its end is reported last. -/
def leave (t : Thread) (failure : Option String) : Thread :=
  { t with stage := .leaving, todo := t.farewell ++ [.report failure] }

/-- The node has broken down. -/
def crash (t : Thread) : Thread :=
  { t with stage := .crashed, todo := t.farewell }

/-- The node has stopped for a reason; only the end of the input is not a failure. -/
def stop (t : Thread) (reason : Halt) : Thread :=
  if reason.isFault then t.crash
  else if reason.isEndOfStream then t.leave none
  else t.leave (some reason.message)

end Thread

/-- Threads in the order of the nodes, links in the order of the connections. -/
structure Network where
  threads : List Thread
  links : List Link
  /-- who has reported, and with what failure, in the order of the reports -/
  reports : List (String × Option String) := []

namespace Network

/-! ## From a graph -/

def linksWhere (g : Graph) (p : Connection → Bool) : List (Nat × Connection) :=
  (g.connections.zipIdx.filter fun entry => p entry.1).map fun entry => (entry.2, entry.1)

def feed (g : Graph) (id : TerminalId) : Option (Nat × Connection) :=
  (linksWhere g fun c => c.target = id).head?

/-- The inlet that reads a link. -/
def inletAt : Option (Nat × Connection) → Inlet
  | none => .unconnected
  | some (_, c) => .connected c.type {}

def fanout (g : Graph) (id : TerminalId) : Option Fanout :=
  match linksWhere g fun c => c.source = id with
  | [] => none
  | (link, c) :: rest => some ⟨c.type, link :: rest.map Prod.fst⟩

def threadOf (g : Graph) (id : Nat) (key : String) (node : Node) : Thread :=
  let feeds := node.inputs.map fun terminal => feed g ⟨id, terminal.index⟩
  Thread.launch key node (feeds.map (Option.map Prod.fst)) (feeds.map inletAt)
    (node.outputs.map fun terminal => fanout g ⟨id, terminal.index⟩)

/-- The graph at the beginning of its work. -/
def ofGraph (g : Graph) : Network where
  threads := g.nodes.mapIdx fun id entry => threadOf g id entry.1 entry.2
  links := g.connections.map fun c => { capacity := c.capacity }

/-! ## Steps -/

def setThread (n : Network) (i : Nat) (t : Thread) : Network :=
  { n with threads := n.threads.set i t }

def changeLink (n : Network) (link : Nat) (f : Channel Item → Channel Item) : Network :=
  { n with links := n.links.modify link fun l => { l with channel := f l.channel } }

/-- Whether some thread waits at a link for an item. -/
def isAwaited (n : Network) (link : Nat) : Bool :=
  n.threads.any fun t => t.awaited? = some link

/-- Whether a link has room for an item.  One without any capacity takes an item only from hand to
hand. -/
def hasRoom (n : Network) (link : Nat) (l : Link) : Bool :=
  l.channel.queue.length < l.capacity || (l.channel.queue.isEmpty && n.isAwaited link)

/-- Thread `i` offers an item to a link: it is gone if nobody receives there, and has to wait if
there is no room. -/
def offer (n : Network) (i : Nat) (t : Thread) (link : Nat) (item : Item) : Option Network :=
  match n.links[link]? with
  | none => none
  | some l =>
    if l.channel.hasReceiver = false then some (n.setThread i t.advance)
    else if n.hasRoom link l then
      some ((n.changeLink link fun c => { c with queue := c.queue ++ [.item item] }).setThread i
        { t.advance with taken := true })
    else none

def perform (n : Network) (i : Nat) (t : Thread) : Deed → Option Network
  | .offer link item => n.offer i t link item
  | .confirm =>
    if t.taken then some (n.setThread i { t.advance with taken := false })
    else some (n.setThread i (t.stop (.sendFailed Halt.closedChannel)))
  | .hangUp link => some ((n.changeLink link Channel.dropSender).setThread i t.advance)
  | .turnAway link => some ((n.changeLink link Channel.dropReceiver).setThread i t.advance)
  | .report failure =>
    some ({ n with reports := n.reports ++ [(t.name, failure)] }.setThread i t.advance)

/-- Thread `i` takes what it waits for, or learns that there will be nothing more. -/
def await (n : Network) (i : Nat) (t : Thread) : Option Network := do
  let inlet ← t.dryInlet?
  let link ← (t.feeds[inlet]?).join
  let l ← n.links[link]?
  match l.channel.queue with
  | .item item :: rest =>
    return (n.changeLink link fun c => { c with queue := rest }).setThread i
      (t.touch inlet (Inlet.deliver item))
  | .endOfStream :: _ => return n.setThread i (t.touch inlet Inlet.close)
  | [] =>
    if l.channel.hasSender then none
    else return n.setThread i (t.touch inlet Inlet.close)

/-- Thread `i` has done everything its present call does for now. -/
def turn (n : Network) (i : Nat) (t : Thread) : Option Network :=
  match t.call.result with
  | .ok _ => some (n.setThread i (t.resume t.call.state 0))
  | .error .starved => n.await i t
  | .error reason => some (n.setThread i (t.stop reason))

/-- What thread `i` can do next, if anything. -/
def step (n : Network) (i : Nat) : Option Network :=
  match n.threads[i]? with
  | none => none
  | some t =>
    match t.todo with
    | deed :: _ => n.perform i t deed
    | [] => if t.stage = .working then n.turn i t else none

/-- The first thread that can do something does it. -/
def next? (n : Network) : Option Network :=
  (List.range n.threads.length).findSome? n.step

/-- Lets the threads work until none can do anything, but for no more than `limit` steps. -/
def run (n : Network) : Nat → Network
  | 0 => n
  | limit + 1 =>
    match n.next? with
    | none => n
    | some n => n.run limit

/-! ## Results -/

def numThreads (n : Network) : Nat :=
  n.threads.length

def threadNames (n : Network) : List String :=
  n.threads.map Thread.name

/-- What the nodes that keep their input have received, each under its name in the graph. -/
def collected (n : Network) : List (String × List Item) :=
  n.threads.filterMap fun t => t.start.1.kept?.map fun items => (t.key, items)

def firstFailure? (n : Network) : Option GraphError :=
  n.reports.findSome? fun report =>
    report.2.map fun reason => .nodeFailed report.1 reason

/-- How the work of the network ended: with the first failure that was reported, if there is one. -/
def verdict (n : Network) : Except GraphError Unit :=
  match n.firstFailure? with
  | some error => .error error
  | none => .ok ()

def hasCrashed (n : Network) (name : String) : Bool :=
  match n.threads.findRev? fun t => t.name = name with
  | some t => t.stage = .crashed
  | none => false

/-- What is told while the reports come in: the first report under a name tells a crash of the last
thread with that name. -/
def crashEvents (n : Network) : List Event :=
  ((n.reports.map Prod.fst).eraseDups.filter n.hasCrashed).map fun name =>
    .told name .error "Thread panicked: Any \x7b .. \x7d"

def waitEvents (n : Network) : List Event :=
  [⟨.info, s!"Waiting for {n.numThreads} threads to complete..."⟩] ++ n.crashEvents ++
    [⟨.info, s!"All {n.numThreads} threads completed"⟩]

end Network

namespace Graph

/-! ## Starting -/

/-- The first type of a connection that no channel can be made for. -/
def unregistered? (g : Graph) (registry : Registry) : Option ItemType :=
  (g.connections.map Connection.type).find? fun type => !registry.knows type

/-- The graph at work, unless a connection has an unregistered type. -/
def build (g : Graph) (registry : Registry) : Except GraphError Network :=
  match g.unregistered? registry with
  | some type => .error (.unregisteredType type)
  | none => .ok (Network.ofGraph g)

def buildEvents (g : Graph) (registry : Registry) : List Event :=
  [⟨.info, s!"Building pipeline with {g.nodes.length} nodes and " ++
    s!"{g.connections.length} connections"⟩] ++
  match g.unregistered? registry with
  | some _ => []
  | none =>
    (g.nodes.mapIdx fun id entry => ⟨.debug, s!"Preparing node {id}: {entry.2.name}"⟩) ++
    (g.nodes.map fun entry => ⟨.debug, s!"Starting process node: {entry.2.name}"⟩) ++
    [⟨.info, s!"Pipeline built successfully with {g.nodes.length} threads"⟩]

end Graph

end BusDecode
