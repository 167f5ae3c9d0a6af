import BusDecode.Graph.Wiring
import BusDecode.Proofs.Graph.Builder

/-!
# What wiring makes of a graph

After the first round the tables hold exactly the ends of the channels, by the terminals of their
connections (`Laid`); a connection of an unregistered type ends the round before any node is
started.  The second round hands each node the ends under its own number and leaves those of the
nodes to come (`Holding`), so that in the end every node has what the connections say
(`equipped`).  Broadcasting ends can always be made, since the connections of one outlet agree in
their type as long as the terminals of a node have numbers of their own (`Numbered`).
-/

set_option autoImplicit false

namespace BusDecode

variable {ν : Type}

/-! ## What the connections say -/

namespace Wiring

/-- The connection that leads to an inlet, with its number. -/
def arriving (cs : List Connection) (id : TerminalId) : Option (Connection × Nat) :=
  cs.zipIdx.find? fun entry => entry.1.target = id

/-- The connections that lead away from an outlet, with their numbers, in order. -/
def leaving (cs : List Connection) (id : TerminalId) : List (Connection × Nat) :=
  cs.zipIdx.filter fun entry => entry.1.source = id

def receiving (entry : Connection × Nat) : Plug :=
  .receiving entry.1.type entry.2

def sending (entry : Connection × Nat) : Plug :=
  .sending entry.1.type entry.2

/-- What an inlet is handed in the end. -/
def inputPlug (cs : List Connection) (id : TerminalId) : Plug :=
  ((arriving cs id).map receiving).getD .blank

/-- What an outlet is handed in the end. -/
def outputPlug (cs : List Connection) (id : TerminalId) : Plug :=
  match leaving cs id with
  | [] => .blank
  | (c, link) :: rest => .broadcasting ⟨c.type, link :: rest.map Prod.snd⟩

/-- A node with the ends that the connections say. -/
def equipped [HasTerminals ν] (cs : List Connection) (entry : Nat × ν) : Equipped ν where
  number := entry.1
  node := entry.2
  inputs := (List.range (HasTerminals.numInputs entry.2)).map fun i => inputPlug cs ⟨entry.1, i⟩
  outputs := (List.range (HasTerminals.numOutputs entry.2)).map fun i => outputPlug cs ⟨entry.1, i⟩

theorem getElem?_map_range {α : Type} (f : Nat → α) (n i : Nat) :
    ((List.range n).map f)[i]? = if i < n then some (f i) else none := by
  rw [List.getElem?_map]
  split
  · rename_i hi
    rw [List.getElem?_range hi]
    rfl
  · rename_i hi
    rw [List.getElem?_eq_none (by simpa using hi)]
    rfl

section Lookups

variable {cs : List Connection} {id : TerminalId} {c : Connection} {link : Nat}

theorem arriving_append (c : Connection) :
    arriving (cs ++ [c]) id =
      (arriving cs id).or (if c.target = id then some (c, cs.length) else none) := by
  simp [arriving, List.zipIdx_append, List.find?_append, List.find?_cons]
  split <;> simp_all

theorem leaving_append (c : Connection) :
    leaving (cs ++ [c]) id =
      leaving cs id ++ if c.source = id then [(c, cs.length)] else [] := by
  simp [leaving, List.zipIdx_append, List.filter_append, List.filter_cons]

theorem arriving_eq_none (h : id ∉ cs.map Connection.target) : arriving cs id = none := by
  refine List.find?_eq_none.2 fun entry hentry => ?_
  have hmem : entry.1 ∈ cs := List.fst_mem_of_mem_zipIdx hentry
  simp only [decide_eq_true_eq]
  rintro rfl
  exact h (List.mem_map.2 ⟨_, hmem, rfl⟩)

/-- With inlets that are connected once at most, the connection that leads to one is the one found. -/
theorem arriving_eq_some (hexclusive : (cs.map Connection.target).Nodup) :
    arriving cs id = some (c, link) ↔ cs[link]? = some c ∧ c.target = id := by
  constructor
  · intro h
    exact ⟨List.mem_zipIdx_iff_getElem?.1 (List.mem_of_find?_eq_some h),
      by simpa using List.find?_some h⟩
  · rintro ⟨hc, rfl⟩
    cases hfound : arriving cs c.target with
    | none =>
      have := List.find?_eq_none.1 hfound (c, link) (List.mem_zipIdx_iff_getElem?.2 hc)
      simp at this
    | some entry =>
      obtain ⟨c', link'⟩ := entry
      have hc' := List.mem_zipIdx_iff_getElem?.1 (List.mem_of_find?_eq_some hfound)
      have htarget : c'.target = c.target := by simpa using List.find?_some hfound
      have hlt : link < (cs.map Connection.target).length := by
        rw [List.length_map]
        exact (List.getElem?_eq_some_iff.1 hc).1
      obtain rfl : link = link' := by
        refine (List.getElem?_inj hlt hexclusive).1 ?_
        rw [List.getElem?_map, List.getElem?_map, hc, hc', Option.map_some, Option.map_some, htarget]
      rw [hc] at hc'
      cases hc'
      rfl

theorem mem_leaving : (c, link) ∈ leaving cs id ↔ cs[link]? = some c ∧ c.source = id := by
  simp [leaving, List.mem_zipIdx_iff_getElem?]

end Lookups

/-! ## The first round -/

/-- The tables hold the ends of the channels of these connections, and no node has got any yet. -/
structure Laid (cs : List Connection) (w : Bench ν) : Prop where
  links : w.links = cs.map fun c => { capacity := c.capacity }
  receivers : ∀ id, w.receivers[id]? = (arriving cs id).map receiving
  senders : ∀ id, w.senders[id]? =
    (leaving cs id).head?.map fun entry => (entry.1.type, (leaving cs id).map sending)
  ready : w.ready = []
  started : w.started = []

theorem laid_empty : Laid [] ({} : Bench ν) where
  links := rfl
  receivers := by simp [arriving]
  senders := by simp [leaving]
  ready := rfl
  started := rfl

section First

variable {registry : Registry} {cs : List Connection} {w : Bench ν} {c : Connection}

theorem ends_lay (h : Laid cs w) (hfree : c.target ∉ cs.map Connection.target) :
    Script.Ends (lay registry c) w
      (fun _ w' _ => Laid (cs ++ [c]) w' ∧ registry.knows c.type = true)
      fun e w' _ => w'.started = [] ∧ registry.knows c.type = false ∧
        e = .unregisteredType c.type := by
  refine .bind (.read ?_)
  unfold Registry.channel?
  cases hknown : registry.knows c.type with
  | false => exact .fail ⟨h.started, rfl, rfl⟩
  | true =>
    refine .bind (.modify (.bind (.modify (.modify ⟨?_, rfl⟩))))
    have hlength : w.links.length = cs.length := by rw [h.links, List.length_map]
    refine ⟨?_, fun id => ?_, fun id => ?_, h.ready, h.started⟩
    · simp [h.links]
    · rw [Std.HashMap.getElem?_insert, arriving_append, h.receivers, hlength]
      by_cases hid : c.target = id
      · subst hid
        simp [arriving_eq_none hfree, receiving]
      · simp [hid]
    · rw [Std.HashMap.getElem?_alter, leaving_append, hlength]
      by_cases hid : c.source = id
      · subst hid
        simp only [h.senders, beq_self_eq_true, if_true]
        cases leaving cs c.source <;> simp [push, sending]
      · simp [hid, h.senders]

/-- The whole round, from any connections on: it ends at the first one of an unregistered type. -/
theorem ends_layAll (cs' : List Connection) (h : Laid cs w)
    (hexclusive : ((cs ++ cs').map Connection.target).Nodup) :
    Script.Ends (cs'.forM (lay registry)) w
      (fun _ w' _ => Laid (cs ++ cs') w' ∧ ∀ c ∈ cs', registry.knows c.type = true)
      fun e w' _ => w'.started = [] ∧
        ∃ c, cs'.find? (fun c => !registry.knows c.type) = some c ∧ e = .unregisteredType c.type := by
  induction cs' generalizing cs w with
  | nil => exact .answer ⟨by rwa [List.append_nil], by simp⟩
  | cons c cs' ih =>
    have hfree : c.target ∉ cs.map Connection.target := by
      rw [List.map_append, List.map_cons] at hexclusive
      exact fun hmem => (List.nodup_append.1 hexclusive).2.2 _ hmem _ List.mem_cons_self rfl
    rw [List.append_cons] at hexclusive ⊢
    refine .bind ((ends_lay h hfree).imp ?_ ?_)
    · rintro _ w' _ ⟨h', hknown⟩
      refine (ih h' hexclusive).imp ?_ ?_
      · rintro _ w'' _ ⟨h'', hall⟩
        exact ⟨h'', List.forall_mem_cons.2 ⟨hknown, hall⟩⟩
      · rintro e w'' _ ⟨hstarted, c', hfirst, rfl⟩
        exact ⟨hstarted, c', by rw [List.find?_cons_of_neg (by simp [hknown]), hfirst], rfl⟩
    · rintro e w' _ ⟨hstarted, hknown, rfl⟩
      exact ⟨hstarted, c, List.find?_cons_of_pos (by simp [hknown]), rfl⟩

end First

/-! ## The second round -/

section Tables

variable {α : Type} (table : Std.HashMap TerminalId α) {number i : Nat}

theorem getElem?_erase_beside {j : Nat} (h : i ≠ j) :
    (table.erase ⟨number, i⟩)[(⟨number, j⟩ : TerminalId)]? =
      table[(⟨number, j⟩ : TerminalId)]? := by
  rw [Std.HashMap.getElem?_erase]
  simp [h]

theorem getElem?_erase_elsewhere {id : TerminalId} (h : id.node ≠ number) :
    (table.erase ⟨number, i⟩)[id]? = table[id]? := by
  have hne : (⟨number, i⟩ : TerminalId) ≠ id := by
    rintro rfl
    exact h rfl
  rw [Std.HashMap.getElem?_erase]
  simp [hne]

end Tables

/-- The tables still hold the ends for the nodes of these numbers. -/
structure Holding (cs : List Connection) (numbers : List Nat) (w : Bench ν) : Prop where
  receivers : ∀ id : TerminalId, id.node ∈ numbers →
    w.receivers[id]? = (arriving cs id).map receiving
  senders : ∀ id : TerminalId, id.node ∈ numbers → w.senders[id]? =
    (leaving cs id).head?.map fun entry => (entry.1.type, (leaving cs id).map sending)

theorem Laid.holding {cs : List Connection} {w : Bench ν} (h : Laid cs w) (numbers : List Nat) :
    Holding cs numbers w :=
  ⟨fun id _ => h.receivers id, fun id _ => h.senders id⟩

section Second

variable {registry : Registry} {cs : List Connection} {w : Bench ν} {number : Nat}

theorem answers_takeInput (id : TerminalId) :
    Script.Answers (takeInput id) w fun plug w' _ =>
      plug = w.receivers[id]?.getD .blank ∧
        w' = { w with receivers := w.receivers.erase id } :=
  .bind (.read (.bind (.modify (.answer ⟨rfl, rfl⟩))))

/-- The inlets of a node are handed what the tables hold for them, and the others keep theirs. -/
theorem answers_takeInputs (is : List Nat) (hnodup : is.Nodup) :
    Script.Answers (is.mapM fun i => takeInput ⟨number, i⟩) w fun plugs w' _ =>
      plugs = is.map (fun i => w.receivers[(⟨number, i⟩ : TerminalId)]?.getD .blank) ∧
        ∃ receivers, w' = { w with receivers } ∧
          ∀ id : TerminalId, id.node ≠ number → receivers[id]? = w.receivers[id]? := by
  induction is generalizing w with
  | nil => exact .answer ⟨rfl, w.receivers, rfl, fun _ _ => rfl⟩
  | cons i is ih =>
    obtain ⟨hi, hnodup⟩ := List.nodup_cons.1 hnodup
    rw [List.mapM_cons]
    refine .bind ((answers_takeInput _).mono ?_)
    rintro _ _ _ ⟨rfl, rfl⟩
    refine .bind ((ih hnodup).mono ?_)
    rintro _ _ _ ⟨rfl, receivers, rfl, hothers⟩
    refine .answer ⟨?_, receivers, rfl, fun id hid => ?_⟩
    · rw [List.map_cons]
      congr 1
      refine List.map_congr_left fun j hj => ?_
      rw [getElem?_erase_beside _ (ne_of_mem_of_not_mem hj hi).symm]
    · exact (hothers id hid).trans (getElem?_erase_elsewhere _ hid)

/-- Sending ends of one type can be made one. -/
theorem broadcast?_sending (entries : List (Connection × Nat)) {type : ItemType}
    (hknown : registry.knows type = true) (htypes : ∀ entry ∈ entries, entry.1.type = type) :
    registry.broadcast? type (entries.map sending) =
      some (.broadcasting ⟨type, entries.map Prod.snd⟩) := by
  have hlinks : (entries.map sending).mapM (Plug.sender? type) = some (entries.map Prod.snd) := by
    induction entries with
    | nil => rfl
    | cons entry entries ih =>
      obtain ⟨htype, htypes⟩ := List.forall_mem_cons.1 htypes
      rw [List.map_cons, List.mapM_cons, ih htypes]
      simp [sending, Plug.sender?, htype]
  rw [Registry.broadcast?, if_pos hknown, hlinks]
  rfl

variable (hknown : ∀ c ∈ cs, registry.knows c.type = true)
  (huniform : ∀ c ∈ cs, ∀ c' ∈ cs, c.source = c'.source → c.type = c'.type)

include hknown huniform

theorem answers_takeOutput {id : TerminalId} (h : w.senders[id]? =
      (leaving cs id).head?.map fun entry => (entry.1.type, (leaving cs id).map sending)) :
    Script.Answers (takeOutput registry id) w fun plug w' _ =>
      plug = outputPlug cs id ∧ w' = { w with senders := w.senders.erase id } := by
  refine .bind (.read (.bind (.modify ?_)))
  rw [h]
  unfold outputPlug
  cases hleaving : leaving cs id with
  | nil => exact .answer ⟨rfl, rfl⟩
  | cons entry rest =>
    have hmem : ∀ entry' ∈ entry :: rest, entry'.1 ∈ cs ∧ entry'.1.source = id := by
      intro entry' hentry
      rw [← hleaving] at hentry
      obtain ⟨hc, hsource⟩ := mem_leaving.1 hentry
      exact ⟨List.mem_of_getElem? hc, hsource⟩
    obtain ⟨hentry, hsource⟩ := hmem entry List.mem_cons_self
    have htypes : ∀ entry' ∈ entry :: rest, entry'.1.type = entry.1.type := by
      intro entry' hentry'
      obtain ⟨hc, hsource'⟩ := hmem entry' hentry'
      exact huniform _ hc _ hentry (hsource'.trans hsource.symm)
    dsimp only [List.head?_cons, Option.map_some]
    rw [broadcast?_sending _ (hknown _ hentry) htypes]
    exact .answer ⟨rfl, rfl⟩

/-- The outlets of a node are handed what the connections say, and the others keep their ends. -/
theorem answers_takeOutputs (is : List Nat) (hnodup : is.Nodup)
    (h : ∀ i ∈ is, w.senders[(⟨number, i⟩ : TerminalId)]? =
      (leaving cs ⟨number, i⟩).head?.map fun entry =>
        (entry.1.type, (leaving cs ⟨number, i⟩).map sending)) :
    Script.Answers (is.mapM fun i => takeOutput registry ⟨number, i⟩) w fun plugs w' _ =>
      plugs = is.map (fun i => outputPlug cs ⟨number, i⟩) ∧
        ∃ senders, w' = { w with senders } ∧
          ∀ id : TerminalId, id.node ≠ number → senders[id]? = w.senders[id]? := by
  induction is generalizing w with
  | nil => exact .answer ⟨rfl, w.senders, rfl, fun _ _ => rfl⟩
  | cons i is ih =>
    obtain ⟨hi, hnodup⟩ := List.nodup_cons.1 hnodup
    obtain ⟨hhere, h⟩ := List.forall_mem_cons.1 h
    rw [List.mapM_cons]
    refine .bind ((answers_takeOutput hknown huniform hhere).mono ?_)
    rintro _ _ _ ⟨rfl, rfl⟩
    refine .bind ((ih hnodup fun j hj => ?_).mono ?_)
    · exact (getElem?_erase_beside _ (ne_of_mem_of_not_mem hj hi).symm).trans (h j hj)
    rintro _ _ _ ⟨rfl, senders, rfl, hothers⟩
    refine .answer ⟨rfl, senders, rfl, fun id hid => ?_⟩
    exact (hothers id hid).trans (getElem?_erase_elsewhere _ hid)

variable [HasTerminals ν] {numbers : List Nat}

theorem answers_equip (node : ν) (h : Holding cs (number :: numbers) w)
    (hnumber : number ∉ numbers) :
    Script.Answers (equip registry (number, node)) w fun _ w' _ =>
      Holding cs numbers w' ∧ w'.links = w.links ∧ w'.started = w.started ∧
        w'.ready = w.ready ++ [equipped cs (number, node)] := by
  refine .bind (.note ?_)
  refine .bind ((answers_takeInputs _ List.nodup_range).mono ?_)
  rintro _ _ _ ⟨rfl, receivers, rfl, hreceivers⟩
  refine .bind ((answers_takeOutputs (w := { w with receivers }) hknown huniform _
    List.nodup_range fun i _ => h.senders ⟨number, i⟩ List.mem_cons_self).mono ?_)
  rintro _ _ _ ⟨rfl, senders, rfl, hsenders⟩
  have hlater : ∀ id : TerminalId, id.node ∈ numbers → id.node ≠ number :=
    fun id hid => ne_of_mem_of_not_mem hid hnumber
  refine .modify ⟨⟨fun id hid => ?_, fun id hid => ?_⟩, rfl, rfl, ?_⟩
  · exact (hreceivers id (hlater id hid)).trans (h.receivers id (List.mem_cons_of_mem _ hid))
  · exact (hsenders id (hlater id hid)).trans (h.senders id (List.mem_cons_of_mem _ hid))
  · have hinputs : ∀ i, w.receivers[(⟨number, i⟩ : TerminalId)]? = _ :=
      fun i => h.receivers ⟨number, i⟩ List.mem_cons_self
    simp [equipped, inputPlug, hinputs]

theorem answers_equipAll (entries : List (Nat × ν)) (h : Holding cs (entries.map Prod.fst) w)
    (hnodup : (entries.map Prod.fst).Nodup) :
    Script.Answers (entries.forM (equip registry)) w fun _ w' _ =>
      w'.links = w.links ∧ w'.started = w.started ∧
        w'.ready = w.ready ++ entries.map (equipped cs) := by
  induction entries generalizing w with
  | nil => exact .answer ⟨rfl, rfl, by simp⟩
  | cons entry entries ih =>
    obtain ⟨number, node⟩ := entry
    obtain ⟨hnumber, hnodup⟩ := List.nodup_cons.1 hnodup
    refine .bind ((answers_equip hknown huniform node h hnumber).mono ?_)
    rintro _ w' _ ⟨h', hlinks, hstarted, hready⟩
    refine (ih h' hnodup).mono ?_
    rintro _ w'' _ ⟨hlinks', hstarted', hready'⟩
    exact ⟨hlinks'.trans hlinks, hstarted'.trans hstarted, by simp [hready', hready]⟩

end Second

/-! ## The third round -/

theorem answers_startAll [HasTerminals ν] (es : List (Equipped ν)) (w : Bench ν) :
    Script.Answers (es.forM start) w fun _ w' _ =>
      w' = { w with started := w.started ++ es } := by
  induction es generalizing w with
  | nil => exact .answer (by simp)
  | cons e es ih =>
    refine .bind (.bind (.note (.modify ?_)))
    refine (ih _).mono ?_
    rintro _ _ _ rfl
    simp

end Wiring

/-! ## All rounds -/

open Wiring

variable [HasTerminals ν]

/-- Building a graph whose inlets are connected once at most, whose nodes have different numbers and
whose outlets each have one type. -/
theorem Builder.ends_build (b : Builder ν) (registry : Registry)
    (hexclusive : (b.connections.map Connection.target).Nodup)
    (hnumbers : (b.nodes.map Prod.fst).Nodup)
    (huniform : ∀ c ∈ b.connections, ∀ c' ∈ b.connections,
      c.source = c'.source → c.type = c'.type) :
    Script.Ends (b.build registry) {}
      (fun _ w _ => (∀ c ∈ b.connections, registry.knows c.type = true) ∧
        w.links = b.connections.map (fun c => { capacity := c.capacity }) ∧
        w.started = b.nodes.map (equipped b.connections))
      fun e w _ => w.started = [] ∧
        ∃ c, b.connections.find? (fun c => !registry.knows c.type) = some c ∧
          e = .unregisteredType c.type := by
  refine .bind (.note (.bind ((ends_layAll b.connections laid_empty hexclusive).imp ?_ ?_)))
  · rintro _ w _ ⟨hlaid, hknown⟩
    refine .bind ((answers_equipAll hknown huniform b.nodes (hlaid.holding _) hnumbers).imp ?_
      fun _ _ _ h => h.elim)
    rintro _ w' _ ⟨hlinks, hstarted, hready⟩
    refine .bind (.read (.bind ((answers_startAll _ _).imp ?_ fun _ _ _ h => h.elim)))
    rintro _ _ _ rfl
    refine .note ⟨hknown, hlinks.trans hlaid.links, ?_⟩
    dsimp only
    rw [hstarted, hready, hlaid.started, hlaid.ready, List.nil_append, List.nil_append]
  · rintro e w _ ⟨hstarted, h⟩
    exact ⟨hstarted, h⟩

/-! ## Nodes whose terminals are numbered -/

/-- The number of terminals that a node is handed ends for. -/
def HasTerminals.count (node : ν) : Direction → Nat
  | .input => numInputs node
  | .output => numOutputs node

/-- The terminals that a node describes are those that it is handed ends for, each once. -/
def Numbered (node : ν) : Prop :=
  ∀ direction, (((HasSchema.schema node).toward direction).map Terminal.index).Perm
    (List.range (HasTerminals.count node direction))

theorem numbered (node : Node) : Numbered node := by
  intro direction
  cases direction <;> cases node <;> exact .rfl

namespace Builder

section Names

variable {added : List (String × ν)} {direction : Direction} {name name' : TerminalName}
  {id : TerminalId} {type type' : ItemType}
  (hnumbered : ∀ entry ∈ added, Numbered entry.2)

include hnumbered

/-- The number of a terminal is one of those that its node is handed ends for. -/
theorem Has.terminal_lt (h : Has added direction name id type) :
    ∃ entry, added[id.node]? = some entry ∧
      id.terminal < HasTerminals.count entry.2 direction := by
  obtain ⟨node, terminal, hnode, hterminal, hindex, -⟩ := h
  refine ⟨_, hnode, ?_⟩
  have hmem : terminal.index ∈ ((HasSchema.schema node).toward direction).map Terminal.index :=
    List.mem_map_of_mem (List.mem_of_find?_eq_some hterminal)
  rw [← hindex]
  exact List.mem_range.1 ((hnumbered _ (List.mem_of_getElem? hnode) direction).mem_iff.1 hmem)

/-- A terminal has one type, by whatever name it is known. -/
theorem Has.type_unique (h : Has added direction name id type)
    (h' : Has added direction name' id type') : type = type' := by
  obtain ⟨node, terminal, hnode, hterminal, hindex, rfl⟩ := h
  obtain ⟨node', terminal', hnode', hterminal', hindex', rfl⟩ := h'
  rw [hnode] at hnode'
  obtain rfl : node = node' := congrArg Prod.snd (Option.some.inj hnode')
  have hnodup : (((HasSchema.schema node).toward direction).map Terminal.index).Nodup :=
    (hnumbered _ (List.mem_of_getElem? hnode) direction).nodup_iff.2 List.nodup_range
  have hterminals : terminal = terminal' :=
    List.inj_on_of_nodup_map hnodup (List.mem_of_find?_eq_some hterminal)
      (List.mem_of_find?_eq_some hterminal') (hindex.trans hindex'.symm)
  rw [hterminals]

end Names

/-! ## The graph that is wired -/

/-- The network is that of these nodes and these connections: each connection has a channel of its
own, and each node is started once, in order, with exactly the ends that the connections give its
terminals.  An end is only given to who asks for its type. -/
structure Wired (added : List (String × ν)) (cs : List Connection) (w : Bench ν) : Prop where
  links : w.links = cs.map fun c => { capacity := c.capacity }
  nodes : w.started.map (fun e => (e.number, e.node)) =
    added.zipIdx.map fun entry => (entry.2, entry.1.2)
  terminals : ∀ e ∈ w.started, e.inputs.length = HasTerminals.numInputs e.node ∧
    e.outputs.length = HasTerminals.numOutputs e.node
  inputs : ∀ e ∈ w.started, ∀ (i : Nat) (type : ItemType) (link : Nat),
    e.inputs[i]?.bind (Plug.receiver? type) = some link ↔
      ∃ c, cs[link]? = some c ∧ c.target = ⟨e.number, i⟩ ∧ c.type = type
  outputs : ∀ e ∈ w.started, ∀ (i : Nat) (type : ItemType) (links : List Nat),
    e.outputs[i]?.bind (Plug.broadcast? type) = some links ↔
      links = (leaving cs ⟨e.number, i⟩).map Prod.snd ∧
        ∃ c ∈ cs, c.source = ⟨e.number, i⟩ ∧ c.type = type

section Wired

variable {added : List (String × ν)} {wires : List Wire} {b : Builder ν}

theorem Holds.numbers_nodup (h : b.Holds added wires) : (b.nodes.map Prod.fst).Nodup := by
  rw [h.nodes, List.map_map]
  change (added.zipIdx.map Prod.snd).Nodup
  rw [List.zipIdx_map_snd]
  exact List.nodup_range'

theorem Holds.joined (h : b.Holds added wires) {c : Connection} (hc : c ∈ b.connections) :
    ∃ wire, Joins added wire c := by
  have hjoins := h.connections
  clear h
  generalize b.connections = cs at hjoins hc
  induction hjoins with
  | nil => cases hc
  | cons hjoin _ ih =>
    obtain rfl | hc := List.mem_cons.1 hc
    · exact ⟨_, hjoin⟩
    · exact ih hc

theorem Holds.mem_nodes (h : b.Holds added wires) {entry : Nat × ν} (hentry : entry ∈ b.nodes) :
    ∃ name, added[entry.1]? = some (name, entry.2) := by
  rw [h.nodes] at hentry
  obtain ⟨⟨⟨name, node⟩, number⟩, hmem, rfl⟩ := List.mem_map.1 hentry
  exact ⟨name, List.mem_zipIdx_iff_getElem?.1 hmem⟩

theorem Holds.uniform (h : b.Holds added wires) (hnumbered : ∀ entry ∈ added, Numbered entry.2)
    {c c' : Connection} (hc : c ∈ b.connections) (hc' : c' ∈ b.connections)
    (hsource : c.source = c'.source) : c.type = c'.type := by
  obtain ⟨_, hjoins⟩ := h.joined hc
  obtain ⟨_, hjoins'⟩ := h.joined hc'
  exact hjoins.source.type_unique hnumbered (hsource ▸ hjoins'.source)

/-- Asking the plug of an inlet. -/
theorem receiver?_inputPlug {cs : List Connection}
    (hexclusive : (cs.map Connection.target).Nodup) {id : TerminalId} {type : ItemType}
    {link : Nat} :
    (inputPlug cs id).receiver? type = some link ↔
      ∃ c, cs[link]? = some c ∧ c.target = id ∧ c.type = type := by
  unfold inputPlug
  cases harriving : arriving cs id with
  | none =>
    refine ⟨nofun, ?_⟩
    rintro ⟨c, hc, htarget, -⟩
    rw [(arriving_eq_some hexclusive).2 ⟨hc, htarget⟩] at harriving
    cases harriving
  | some entry =>
    obtain ⟨c, link'⟩ := entry
    have hc := (arriving_eq_some hexclusive).1 harriving
    constructor
    · intro h
      obtain ⟨htype, rfl⟩ : c.type = type ∧ link' = link := by
        simpa [receiving, Plug.receiver?] using h
      exact ⟨c, hc.1, hc.2, htype⟩
    · rintro ⟨c', hc', htarget, htype⟩
      rw [(arriving_eq_some hexclusive).2 ⟨hc', htarget⟩] at harriving
      cases harriving
      simp [receiving, Plug.receiver?, htype]

/-- Asking the plug of an outlet of one type. -/
theorem broadcast?_outputPlug {cs : List Connection} {id : TerminalId} {type : ItemType}
    {links : List Nat}
    (huniform : ∀ c ∈ cs, ∀ c' ∈ cs, c.source = c'.source → c.type = c'.type) :
    (outputPlug cs id).broadcast? type = some links ↔
      links = (leaving cs id).map Prod.snd ∧ ∃ c ∈ cs, c.source = id ∧ c.type = type := by
  have hmem : ∀ c : Connection, (∃ link, (c, link) ∈ leaving cs id) ↔ c ∈ cs ∧ c.source = id := by
    intro c
    rw [List.mem_iff_getElem?, ← exists_and_right]
    exact exists_congr fun link => mem_leaving
  unfold outputPlug
  cases hleaving : leaving cs id with
  | nil =>
    refine ⟨nofun, ?_⟩
    rintro ⟨-, c, hc, hsource, -⟩
    obtain ⟨link, hlink⟩ := (hmem c).2 ⟨hc, hsource⟩
    rw [hleaving] at hlink
    cases hlink
  | cons entry rest =>
    obtain ⟨c, link⟩ := entry
    obtain ⟨hc, hsource⟩ := (hmem c).1 ⟨link, by rw [hleaving]; exact List.mem_cons_self⟩
    constructor
    · intro h
      obtain ⟨htype, rfl⟩ : c.type = type ∧ link :: rest.map Prod.snd = links := by
        simpa [Plug.broadcast?] using h
      exact ⟨rfl, c, hc, hsource, htype⟩
    · rintro ⟨rfl, c', hc', hsource', rfl⟩
      have htype := huniform c hc c' hc' (hsource.trans hsource'.symm)
      simp [Plug.broadcast?, htype]

theorem Holds.wired (h : b.Holds added wires) (hnumbered : ∀ entry ∈ added, Numbered entry.2)
    {w : Bench ν} (hlinks : w.links = b.connections.map fun c => { capacity := c.capacity })
    (hstarted : w.started = b.nodes.map (equipped b.connections)) :
    Wired added b.connections w where
  links := hlinks
  nodes := by
    rw [hstarted, List.map_map]
    exact (List.map_id _).trans h.nodes
  terminals := by
    intro e he
    rw [hstarted] at he
    obtain ⟨entry, -, rfl⟩ := List.mem_map.1 he
    simp [equipped]
  inputs := by
    intro e he i type link
    rw [hstarted] at he
    obtain ⟨entry, hentry, rfl⟩ := List.mem_map.1 he
    obtain ⟨name, hnode⟩ := h.mem_nodes hentry
    by_cases hi : i < HasTerminals.numInputs entry.2
    · rw [equipped, getElem?_map_range, if_pos hi]
      exact receiver?_inputPlug h.exclusive
    · rw [equipped, getElem?_map_range, if_neg hi]
      refine ⟨nofun, ?_⟩
      rintro ⟨c, hc, htarget, -⟩
      obtain ⟨_, hjoins⟩ := h.joined (List.mem_of_getElem? hc)
      obtain ⟨entry', hnode', hlt⟩ := hjoins.target.terminal_lt hnumbered
      rw [htarget] at hnode' hlt
      cases hnode.symm.trans hnode'
      exact absurd hlt hi
  outputs := by
    intro e he i type links
    rw [hstarted] at he
    obtain ⟨entry, hentry, rfl⟩ := List.mem_map.1 he
    obtain ⟨name, hnode⟩ := h.mem_nodes hentry
    by_cases hi : i < HasTerminals.numOutputs entry.2
    · rw [equipped, getElem?_map_range, if_pos hi]
      exact broadcast?_outputPlug fun c hc c' hc' => h.uniform hnumbered hc hc'
    · rw [equipped, getElem?_map_range, if_neg hi]
      refine ⟨nofun, ?_⟩
      rintro ⟨-, c, hc, hsource, -⟩
      obtain ⟨_, hjoins⟩ := h.joined hc
      obtain ⟨entry', hnode', hlt⟩ := hjoins.source.terminal_lt hnumbered
      rw [hsource] at hnode' hlt
      cases hnode.symm.trans hnode'
      exact absurd hlt hi

end Wired

end Builder

omit [HasTerminals ν] in
theorem Request.mem_granted {request : Request ν} {requests : List (Request ν)}
    {replies : List (Except GraphError Unit)} (h : request ∈ granted requests replies) :
    request ∈ requests := by
  obtain ⟨⟨request', reply⟩, hmem, hsome⟩ := List.mem_filterMap.1 h
  obtain rfl : request' = request := by
    dsimp only at hsome
    split at hsome
    · exact Option.some.inj hsome
    · cases hsome
  exact (List.of_mem_zip hmem).1

/-- **Wiring.**  Of a builder after any requests, building fails exactly if a connection has an
unregistered type, with the first such type and before any node is started.  Otherwise the network
is that of the nodes and the connections that were granted. -/
theorem build_wires (registry : Registry) (capacity : Nat) (requests : List (Request ν))
    (hnumbered : ∀ name node, Request.add name node ∈ requests → Numbered node) :
    let performed := Request.performAll { defaultCapacity := capacity } requests
    let added := (Request.granted requests performed.1).filterMap Request.node?
    let b := performed.2
    let t := (b.build registry).run {}
    (∃ c, b.connections.find? (fun c => !registry.knows c.type) = some c ∧
        t.result = .error (.unregisteredType c.type) ∧ t.state.started = []) ∨
      (∀ c ∈ b.connections, registry.knows c.type = true) ∧
        t.result = .ok () ∧ Builder.Wired added b.connections t.state := by
  have hholds := Builder.performAll_from requests (Builder.holds_empty (ν := ν) capacity)
  dsimp only [List.nil_append] at hholds ⊢
  generalize Request.performAll { defaultCapacity := capacity } requests = performed at hholds ⊢
  obtain ⟨replies, b⟩ := performed
  have hnumbered : ∀ entry ∈ (Request.granted requests replies).filterMap Request.node?,
      Numbered entry.2 := by
    intro entry hentry
    obtain ⟨request, hgranted, hnode⟩ := List.mem_filterMap.1 hentry
    cases request with
    | add name node =>
      cases hnode
      exact hnumbered _ _ (Request.mem_granted hgranted)
    | connect => cases hnode
  have hbuild := b.ends_build registry hholds.exclusive hholds.numbers_nodup
    fun c hc c' hc' => hholds.uniform hnumbered hc hc'
  dsimp only at hnumbered ⊢
  unfold Script.Ends at hbuild
  rcases hrun : (b.build registry).run {} with ⟨e | ⟨⟩, w, effects⟩
  · rw [hrun] at hbuild
    obtain ⟨hstarted, c, hfirst, rfl⟩ := hbuild
    exact .inl ⟨c, hfirst, rfl, hstarted⟩
  · rw [hrun] at hbuild
    obtain ⟨hknown, hlinks, hstarted⟩ := hbuild
    exact .inr ⟨hknown, rfl, hholds.wired hnumbered hlinks hstarted⟩

/-- One line read by two decoders, and one of them by a collector: the two connections that lead
away from the line are the destinations of its outlet, in order. -/
theorem build_wires_branching :
    let requests : List (Request Node) :=
      [.add "line" (.replay "line" .samples [] 0), .add "left" (.updi {}), .add "right" (.updi {}),
        .add "log" (.collector "log" #[]),
        .connect ⟨"line", "out"⟩ ⟨"right", "updi"⟩ none,
        .connect ⟨"left", "annotations"⟩ ⟨"log", "annotations"⟩ none,
        .connect ⟨"line", "out"⟩ ⟨"left", "updi"⟩ (some 4)]
    let performed := Request.performAll { defaultCapacity := 2 } requests
    let added := (Request.granted requests performed.1).filterMap Request.node?
    let b := performed.2
    let t := (b.build Registry.standard).run {}
    b.connections = [⟨⟨0, 0⟩, ⟨2, 0⟩, .samples, 2⟩, ⟨⟨1, 0⟩, ⟨3, 0⟩, .annotations, 2⟩,
        ⟨⟨0, 0⟩, ⟨1, 0⟩, .samples, 4⟩] ∧
      t.result = .ok () ∧ Builder.Wired added b.connections t.state := by
  intro requests
  have hwires := build_wires Registry.standard 2 requests fun _ node _ => numbered node
  have hconnections : (requests.foldl Graph.after { defaultCapacity := 2 }).connections =
      [⟨⟨0, 0⟩, ⟨2, 0⟩, .samples, 2⟩, ⟨⟨1, 0⟩, ⟨3, 0⟩, .annotations, 2⟩,
        ⟨⟨0, 0⟩, ⟨1, 0⟩, .samples, 4⟩] := by
    decide +kernel
  rw [← Builder.performAll_graph 2 requests] at hconnections
  generalize Request.performAll { defaultCapacity := 2 } requests = performed at *
  change performed.2.connections = _ at hconnections
  have hknown : performed.2.connections.find? (fun c => !Registry.standard.knows c.type) = none := by
    rw [hconnections]
    decide
  obtain ⟨c, hunknown, -⟩ | ⟨-, hresult, hwired⟩ := hwires
  · rw [hknown] at hunknown
    cases hunknown
  · exact ⟨hconnections, hresult, hwired⟩

/-! ## The network of a graph -/

section Launch

variable {added : List (String × Node)} {wires : List Wire} {b : Builder Node}

theorem inputs_index (node : Node) :
    node.inputs.map Terminal.index = List.range node.inputs.length := by
  cases node <;> rfl

theorem outputs_index (node : Node) :
    node.outputs.map Terminal.index = List.range node.outputs.length := by
  cases node <;> rfl

theorem link?_inputPlug (g : Graph) (id : TerminalId) :
    (inputPlug g.connections id).link? = (Network.feed g id).map Prod.fst ∧
      (inputPlug g.connections id).inlet = Network.inletAt (Network.feed g id) := by
  have hfeed : Network.feed g id =
      (arriving g.connections id).map fun entry => (entry.2, entry.1) := by
    rw [Network.feed, Network.linksWhere, List.head?_map, List.head?_filter]
    rfl
  rw [hfeed, inputPlug]
  cases arriving g.connections id <;> exact ⟨rfl, rfl⟩

theorem fanout?_outputPlug (g : Graph) (id : TerminalId) :
    (outputPlug g.connections id).fanout? = Network.fanout g id := by
  have hlinks : (Network.linksWhere g fun c => c.source = id) =
      (leaving g.connections id).map fun entry => (entry.2, entry.1) := rfl
  rw [Network.fanout, hlinks, outputPlug]
  cases leaving g.connections id with
  | nil => rfl
  | cons entry rest => simp [Plug.fanout?]

/-- A node with the ends that the connections say is the thread that the graph has for it. -/
theorem thread_equipped (g : Graph) (number : Nat) (node : Node) (key : String) :
    (equipped g.connections (number, node)).thread key = Network.threadOf g number key node := by
  have hfeeds : (node.inputs.map fun terminal => Network.feed g ⟨number, terminal.index⟩) =
      (List.range node.inputs.length).map fun i => Network.feed g ⟨number, i⟩ := by
    rw [← inputs_index, List.map_map]
    rfl
  have hfanouts : (node.outputs.map fun terminal => Network.fanout g ⟨number, terminal.index⟩) =
      (List.range node.outputs.length).map fun i => Network.fanout g ⟨number, i⟩ := by
    rw [← outputs_index, List.map_map]
    rfl
  have hlinks := fun i => (link?_inputPlug g ⟨number, i⟩).1
  have hinlets := fun i => (link?_inputPlug g ⟨number, i⟩).2
  have houtlets := fun i => fanout?_outputPlug g ⟨number, i⟩
  simp only [Network.threadOf, Equipped.thread, equipped, hfeeds, hfanouts, List.map_map,
    Function.comp_def, hlinks, hinlets, houtlets]
  rfl

/-- **Launching.**  The network that wiring makes of a builder is that of the graph it holds. -/
theorem Builder.Holds.launch (h : b.Holds added wires) (registry : Registry) :
    b.launch registry = b.graph.build registry := by
  have hbuild := b.ends_build registry h.exclusive h.numbers_nodup
    fun c hc c' hc' => h.uniform (fun entry _ => numbered entry.2) hc hc'
  have hunregistered : b.graph.unregistered? registry =
      (b.connections.find? fun c => !registry.knows c.type).map Connection.type := by
    rw [Graph.unregistered?, List.find?_map]
    rfl
  unfold Script.Ends at hbuild
  rw [Builder.launch, Graph.build, hunregistered]
  rcases hrun : (b.build registry).run {} with ⟨e | ⟨⟩, w, effects⟩
  · rw [hrun] at hbuild
    obtain ⟨-, c, hfirst, rfl⟩ := hbuild
    rw [hfirst]
    rfl
  · rw [hrun] at hbuild
    obtain ⟨hknown, hlinks, hstarted⟩ := hbuild
    have hnone : b.connections.find? (fun c => !registry.knows c.type) = none :=
      List.find?_eq_none.2 fun c hc => by simp [hknown c hc]
    rw [hnone]
    refine congrArg Except.ok ?_
    have hthreads : (w.started.map fun e => e.thread ((b.nameOf? e.number).getD "")) =
        b.graph.nodes.mapIdx fun number entry =>
          Network.threadOf b.graph number entry.1 entry.2 := by
      rw [hstarted, h.nodes, List.map_map, List.map_map, List.mapIdx_eq_zipIdx_map, h.graph]
      refine List.map_congr_left fun entry hentry => ?_
      have hname := h.nameOf? (List.mem_zipIdx_iff_getElem?.1 hentry)
      dsimp only [Function.comp_apply, equipped]
      rw [hname, ← thread_equipped]
      rfl
    rw [Builder.network, Network.ofGraph, hthreads, hlinks, h.graph]

end Launch

end BusDecode
