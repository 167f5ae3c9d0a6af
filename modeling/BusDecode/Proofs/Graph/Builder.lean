import BusDecode.Graph.Builder
import BusDecode.Proofs.Script
import Mathlib.Data.List.Forall2
import Mathlib.Data.List.Nodup
import Std.Data.HashMap.Lemmas

/-!
# What a builder holds

Whatever requests came before, the tables of a builder agree: they are those of the nodes and of the
connections that were granted, in order (`Holds`).  A request that fails changes none of them, and
its error is the first objection to it (`performAll_holds`).  Every request keeps this
(`ends_perform`), and the graph that comes of it is the one that adding and connecting build up
(`perform_graph`).
-/

set_option autoImplicit false

namespace BusDecode

/-- A connection as it was asked for. -/
structure Wire where
  source : TerminalName
  target : TerminalName
  capacity : Nat
  deriving DecidableEq, Repr

namespace Request

variable {ν : Type}

/-- The node that a request adds, with its name. -/
def node? : Request ν → Option (String × ν)
  | add name node => some (name, node)
  | connect _ _ _ => none

/-- The connection that a request makes. -/
def wire? (defaultCapacity : Nat) : Request ν → Option Wire
  | add _ _ => none
  | connect source target capacity => some ⟨source, target, capacity.getD defaultCapacity⟩

/-- The requests that were granted. -/
def granted (requests : List (Request ν)) (replies : List (Except GraphError Unit)) :
    List (Request ν) :=
  (requests.zip replies).filterMap fun (request, reply) => if reply.isOk then some request else none

section Granted

variable {request : Request ν} {requests : List (Request ν)}
  {replies : List (Except GraphError Unit)}

@[simp] theorem granted_nil : granted ([] : List (Request ν)) replies = [] := rfl

@[simp] theorem granted_cons_ok {a : Unit} :
    granted (request :: requests) (.ok a :: replies) = request :: granted requests replies := rfl

@[simp] theorem granted_cons_error {e : GraphError} :
    granted (request :: requests) (.error e :: replies) = granted requests replies := rfl

end Granted

end Request

namespace Builder

variable {ν : Type} [HasSchema ν]

/-! ## What the tables say -/

/-- Of the named nodes, the one at this place has this name, and its terminal of this name has this
number and type. -/
def Has (added : List (String × ν)) (direction : Direction) (name : TerminalName) (id : TerminalId)
    (type : ItemType) : Prop :=
  ∃ node terminal, added[id.node]? = some (name.node, node) ∧
    (HasSchema.schema node).terminal? direction name.terminal = some terminal ∧
    terminal.index = id.terminal ∧ terminal.type = type

/-- A connection from an outlet to an inlet of the same type, as it was asked for. -/
structure Joins (added : List (String × ν)) (wire : Wire) (c : Connection) : Prop where
  source : Has added .output wire.source c.source c.type
  target : Has added .input wire.target c.target c.type
  capacity : c.capacity = wire.capacity

/-- The tables are those of these nodes and these connections. -/
structure Holds (b : Builder ν) (added : List (String × ν)) (wires : List Wire) : Prop where
  distinct : (added.map Prod.fst).Nodup
  nodes : b.nodes = added.zipIdx.map fun entry => (entry.2, entry.1.2)
  numbers : ∀ (name : String) (number : Nat),
    b.numbers[name]? = some number ↔ ∃ node, added[number]? = some (name, node)
  schemas : ∀ number : Nat,
    b.schemas[number]? = added[number]?.map fun entry => HasSchema.schema entry.2
  next : b.next = added.length
  connections : List.Forall₂ (Joins added) wires b.connections
  exclusive : (b.connections.map Connection.target).Nodup

/-! ## Objections -/

/-- What speaks against a request, in the order in which it is looked for. -/
inductive Objection (added : List (String × ν)) (connections : List Connection) :
    Request ν → Nat → GraphError → Prop
  | name {name : String} {node : ν} (h : name ∈ added.map Prod.fst) :
    Objection added connections (.add name node) 0 (.duplicateNode name)
  | sourceNode {source target : TerminalName} {capacity : Option Nat}
    (h : source.node ∉ added.map Prod.fst) :
    Objection added connections (.connect source target capacity) 0
      (.connection (.nodeNotFound source.node))
  | sourceTerminal {source target : TerminalName} {capacity : Option Nat}
    (h : ∀ id type, ¬Has added .output source id type) :
    Objection added connections (.connect source target capacity) 1
      (.connection (.terminalNotFound source))
  | targetNode {source target : TerminalName} {capacity : Option Nat}
    (h : target.node ∉ added.map Prod.fst) :
    Objection added connections (.connect source target capacity) 2
      (.connection (.nodeNotFound target.node))
  | targetTerminal {source target : TerminalName} {capacity : Option Nat}
    (h : ∀ id type, ¬Has added .input target id type) :
    Objection added connections (.connect source target capacity) 3
      (.connection (.terminalNotFound target))
  | types {source target : TerminalName} {capacity : Option Nat} {outlet inlet : TerminalId}
    {sends takes : ItemType} (hsource : Has added .output source outlet sends)
    (htarget : Has added .input target inlet takes) (h : sends ≠ takes) :
    Objection added connections (.connect source target capacity) 4
      (.connection (.typeMismatch source sends target takes))
  | occupied {source target : TerminalName} {capacity : Option Nat} {inlet : TerminalId}
    {takes : ItemType} (htarget : Has added .input target inlet takes)
    (h : inlet ∈ connections.map Connection.target) :
    Objection added connections (.connect source target capacity) 5
      (.connection (.duplicateConnection target))

/-- The objection that comes before all others. -/
def FirstObjection (added : List (String × ν)) (connections : List Connection)
    (request : Request ν) (e : GraphError) : Prop :=
  ∃ i, Objection added connections request i e ∧
    ∀ j < i, ∀ e', ¬Objection added connections request j e'

section Lookups

variable {added more : List (String × ν)} {wires : List Wire} {b : Builder ν}
  {direction : Direction} {name : TerminalName} {id id' : TerminalId} {type type' : ItemType}

/-- Nodes that are added later change nothing. -/
theorem Has.append (h : Has added direction name id type) :
    Has (added ++ more) direction name id type := by
  obtain ⟨node, terminal, hnode, h⟩ := h
  refine ⟨node, terminal, ?_, h⟩
  rw [List.getElem?_append_left (List.getElem?_eq_some_iff.1 hnode).1, hnode]

theorem Joins.append {wire : Wire} {c : Connection} (h : Joins added wire c) :
    Joins (added ++ more) wire c :=
  ⟨h.source.append, h.target.append, h.capacity⟩

theorem Has.mem (h : Has added direction name id type) : name.node ∈ added.map Prod.fst := by
  obtain ⟨node, _, hnode, _⟩ := h
  exact List.mem_map.2 ⟨_, List.mem_of_getElem? hnode, rfl⟩

namespace Holds

theorem mem_names (h : b.Holds added wires) {name : String} :
    name ∈ added.map Prod.fst ↔ ∃ number, b.numbers[name]? = some number := by
  constructor
  · intro hname
    obtain ⟨⟨_, node⟩, hmem, rfl⟩ := List.mem_map.1 hname
    obtain ⟨number, hnode⟩ := List.mem_iff_getElem?.1 hmem
    exact ⟨number, (h.numbers _ _).2 ⟨node, hnode⟩⟩
  · rintro ⟨number, hnumber⟩
    obtain ⟨node, hnode⟩ := (h.numbers _ _).1 hnumber
    exact List.mem_map.2 ⟨_, List.mem_of_getElem? hnode, rfl⟩

theorem contains_iff (h : b.Holds added wires) {name : String} :
    b.numbers.contains name = true ↔ name ∈ added.map Prod.fst := by
  rw [h.mem_names, Std.HashMap.contains_eq_isSome_getElem?, Option.isSome_iff_exists]

/-- A name stands for one terminal of a direction at most. -/
theorem has_unique (h : b.Holds added wires) (hid : Has added direction name id type)
    (hid' : Has added direction name id' type') : id = id' ∧ type = type' := by
  obtain ⟨node, terminal, hnode, hterminal, hindex, rfl⟩ := hid
  obtain ⟨node', terminal', hnode', hterminal', hindex', rfl⟩ := hid'
  have hnumber : id.node = id'.node := Option.some.inj
    (((h.numbers _ _).2 ⟨node, hnode⟩).symm.trans ((h.numbers _ _).2 ⟨node', hnode'⟩))
  rw [hnumber, hnode'] at hnode
  cases hnode
  rw [hterminal] at hterminal'
  cases hterminal'
  refine ⟨?_, rfl⟩
  cases id
  cases id'
  simp_all

end Holds

end Lookups

/-! ## The order of the objections -/

namespace Objection

variable {added : List (String × ν)} {wires : List Wire} {b : Builder ν}
  {connections : List Connection} {source target : TerminalName} {capacity : Option Nat}
  {outlet inlet : TerminalId} {sends takes : ItemType} {i : Nat} {e e' : GraphError}
  (h : Objection added connections (.connect source target capacity) i e)

include h

theorem one_le (hsource : source.node ∈ added.map Prod.fst) : 1 ≤ i := by
  cases h with
  | sourceNode hnone => exact absurd hsource hnone
  | _ => omega

theorem two_le (hsource : Has added .output source outlet sends) : 2 ≤ i := by
  cases h with
  | sourceNode hnone => exact absurd hsource.mem hnone
  | sourceTerminal hnone => exact absurd hsource (hnone _ _)
  | _ => omega

theorem three_le (hsource : Has added .output source outlet sends)
    (htarget : target.node ∈ added.map Prod.fst) : 3 ≤ i := by
  have htwo := h.two_le hsource
  cases h with
  | targetNode hnone => exact absurd htarget hnone
  | _ => omega

theorem four_le (hsource : Has added .output source outlet sends)
    (htarget : Has added .input target inlet takes) : 4 ≤ i := by
  have hthree := h.three_le hsource htarget.mem
  cases h with
  | targetTerminal hnone => exact absurd htarget (hnone _ _)
  | _ => omega

theorem five_le (hb : b.Holds added wires) (hsource : Has added .output source outlet sends)
    (htarget : Has added .input target inlet sends) : 5 ≤ i := by
  have hfour := h.four_le hsource htarget
  cases h with
  | types hsource' htarget' hne =>
    have hsends := (hb.has_unique hsource hsource').2
    have htakes := (hb.has_unique htarget htarget').2
    exact absurd (hsends.symm.trans htakes) hne
  | _ => omega

/-- With both ends there, of one type, and the inlet free, nothing speaks against a connection. -/
theorem occupied_of (hb : b.Holds added wires) (hsource : Has added .output source outlet sends)
    (htarget : Has added .input target inlet sends) :
    inlet ∈ connections.map Connection.target := by
  have hfive := h.five_le hb hsource htarget
  cases h with
  | occupied htarget' hmem => exact (hb.has_unique htarget htarget').1 ▸ hmem
  | _ => omega

omit h

/-- At each place there is one objection at most. -/
theorem unique (hb : b.Holds added wires) {request : Request ν}
    (h : Objection added connections request i e) (h' : Objection added connections request i e') :
    e = e' := by
  cases h with
  | types hsource htarget _ =>
    cases h' with
    | types hsource' htarget' _ =>
      rw [(hb.has_unique hsource hsource').2, (hb.has_unique htarget htarget').2]
  | _ =>
    cases h'
    rfl

end Objection

theorem FirstObjection.unique {added : List (String × ν)} {wires : List Wire} {b : Builder ν}
    {connections : List Connection} {request : Request ν} {e e' : GraphError}
    (hb : b.Holds added wires) (h : FirstObjection added connections request e)
    (h' : FirstObjection added connections request e') : e = e' := by
  obtain ⟨i, hi, hbefore⟩ := h
  obtain ⟨j, hj, hbefore'⟩ := h'
  rcases Nat.lt_trichotomy i j with hlt | rfl | hlt
  · exact absurd hi (hbefore' i hlt e)
  · exact hi.unique hb hj
  · exact absurd hj (hbefore j hlt e')

/-! ## One request -/

section Steps

variable {added : List (String × ν)} {wires : List Wire} {b : Builder ν}
  {source target : TerminalName} {capacity : Option Nat}

theorem ends_schemaOf (h : b.Holds added wires) (name : String) :
    Script.Ends (schemaOf name) b
      (fun schema b' _ => b' = b ∧ ∃ (number : Nat) (node : ν), b.numbers[name]? = some number ∧
        added[number]? = some (name, node) ∧ schema = HasSchema.schema node)
      fun e b' _ => b' = b ∧ e = .nodeNotFound name ∧ name ∉ added.map Prod.fst := by
  refine .bind (.read ?_)
  cases hnumber : b.numbers[name]? with
  | none =>
    refine .fail ⟨rfl, rfl, fun hname => ?_⟩
    obtain ⟨number, hnumber'⟩ := h.mem_names.1 hname
    rw [hnumber] at hnumber'
    cases hnumber'
  | some number =>
    obtain ⟨node, hnode⟩ := (h.numbers _ _).1 hnumber
    rw [Option.bind_some, h.schemas, hnode, Option.map_some]
    exact .answer ⟨rfl, number, node, rfl, hnode, rfl⟩

theorem ends_findTerminal (h : b.Holds added wires) (direction : Direction) (name : TerminalName) :
    Script.Ends (findTerminal direction name) b
      (fun terminal b' _ => b' = b ∧
        Has added direction name ⟨b.numbers[name.node]!, terminal.index⟩ terminal.type)
      fun e b' _ => b' = b ∧ (e = .nodeNotFound name.node ∧ name.node ∉ added.map Prod.fst ∨
        e = .terminalNotFound name ∧ name.node ∈ added.map Prod.fst ∧
          ∀ id type, ¬Has added direction name id type) := by
  refine .bind ((ends_schemaOf h name.node).imp ?_ ?_)
  · rintro schema _ _ ⟨rfl, number, node, hnumber, hnode, rfl⟩
    cases hterminal : (HasSchema.schema node).terminal? direction name.terminal with
    | none =>
      refine .fail ⟨rfl, .inr ⟨rfl, h.mem_names.2 ⟨number, hnumber⟩, ?_⟩⟩
      rintro id type ⟨node', terminal, hnode', hterminal', -⟩
      have hid := (h.numbers _ _).2 ⟨node', hnode'⟩
      rw [hnumber] at hid
      cases hid
      rw [hnode] at hnode'
      cases hnode'
      rw [hterminal] at hterminal'
      cases hterminal'
    | some terminal =>
      refine .answer ⟨rfl, node, terminal, ?_, hterminal, rfl, rfl⟩
      rw [getElem!_def, hnumber]
      exact hnode
  · rintro e _ _ ⟨rfl, rfl, hname⟩
    exact ⟨rfl, .inl ⟨rfl, hname⟩⟩

theorem getElem?_concat {α : Type} (xs : List α) (x : α) (n : Nat) :
    (xs ++ [x])[n]? = if xs.length = n then some x else xs[n]? := by
  split
  · subst n
    exact List.getElem?_concat_length
  · rename_i hne
    rw [List.getElem?_append]
    split
    · rfl
    · rw [List.getElem?_eq_none (by simp; omega), List.getElem?_eq_none (by omega)]

theorem Holds.add (h : b.Holds added wires) {name : String} (node : ν)
    (hname : name ∉ added.map Prod.fst) :
    Holds { b with
      next := b.next + 1
      schemas := b.schemas.insert b.next (HasSchema.schema node)
      numbers := b.numbers.insert name b.next
      nodes := b.nodes ++ [(b.next, node)] } (added ++ [(name, node)]) wires where
  distinct := by
    rw [List.map_append, List.map_singleton, ← List.concat_eq_append]
    exact h.distinct.concat hname
  nodes := by
    rw [h.nodes, h.next, List.zipIdx_append, List.map_append]
    simp
  numbers := by
    intro other number
    rw [Std.HashMap.getElem?_insert, getElem?_concat, h.next]
    by_cases hother : name = other
    · subst hother
      rw [if_pos (beq_self_eq_true name)]
      by_cases hnumber : added.length = number
      · rw [if_pos hnumber, hnumber]
        exact ⟨fun _ => ⟨node, rfl⟩, fun _ => rfl⟩
      · rw [if_neg hnumber]
        refine ⟨fun h => absurd (Option.some.inj h) hnumber, fun ⟨node', hnode'⟩ => ?_⟩
        exact absurd (List.mem_map.2 ⟨_, List.mem_of_getElem? hnode', rfl⟩) hname
    · rw [if_neg (by simpa using hother), h.numbers]
      by_cases hnumber : added.length = number
      · rw [if_pos hnumber, ← hnumber, List.getElem?_eq_none (Nat.le_refl _)]
        simp [hother]
      · rw [if_neg hnumber]
  schemas := by
    intro number
    rw [Std.HashMap.getElem?_insert, getElem?_concat, h.next, h.schemas]
    by_cases hnumber : added.length = number
    · simp [hnumber]
    · simp [hnumber]
  next := by simp [h.next]
  connections := h.connections.imp fun _ _ hjoins => hjoins.append
  exclusive := h.exclusive

theorem Holds.connect (h : b.Holds added wires) {wire : Wire} {c : Connection}
    (hjoins : Joins added wire c) (hfree : c.target ∉ b.connections.map Connection.target) :
    Holds { b with connections := b.connections ++ [c] } added (wires ++ [wire]) where
  distinct := h.distinct
  nodes := h.nodes
  numbers := h.numbers
  schemas := h.schemas
  next := h.next
  connections := List.rel_append h.connections (.cons hjoins .nil)
  exclusive := by
    rw [List.map_append, List.map_singleton, ← List.concat_eq_append]
    exact h.exclusive.concat hfree

theorem ends_add (h : b.Holds added wires) (name : String) (node : ν) :
    Script.Ends (add name node) b
      (fun _ b' _ => name ∉ added.map Prod.fst ∧ b'.Holds (added ++ [(name, node)]) wires ∧
        b'.defaultCapacity = b.defaultCapacity)
      fun e b' _ => b' = b ∧ e = .duplicateNode name ∧ name ∈ added.map Prod.fst := by
  unfold add
  refine .bind (.read (.ite (fun htaken => ?_) fun hfree => ?_))
  · exact .fail ⟨rfl, rfl, h.contains_iff.1 htaken⟩
  · have hname : name ∉ added.map Prod.fst := fun hname => hfree (h.contains_iff.2 hname)
    exact .bind (.read (.bind (.modify (.bind (.modify (.bind (.modify (.modify
      ⟨hname, h.add node hname, rfl⟩))))))))

theorem occupied_iff {connections : List Connection} {inlet : TerminalId} :
    (connections.any fun c => c.target = inlet) = true ↔
      inlet ∈ connections.map Connection.target := by
  simp

theorem ends_connect (h : b.Holds added wires) (source target : TerminalName) (capacity : Nat)
    (asked : Option Nat) :
    Script.Ends (connect source target capacity) b
      (fun _ b' _ => (∀ i e, ¬Objection added b.connections (.connect source target asked) i e) ∧
        b'.Holds added (wires ++ [⟨source, target, capacity⟩]) ∧
        b'.defaultCapacity = b.defaultCapacity)
      fun e b' _ => b' = b ∧
        FirstObjection added b.connections (.connect source target asked) (.connection e) := by
  unfold connect
  refine .bind ((ends_findTerminal h .output source).imp ?_ ?_)
  swap
  · rintro e _ _ ⟨rfl, ⟨rfl, hnone⟩ | ⟨rfl, hmem, hnone⟩⟩
    · exact ⟨rfl, 0, .sourceNode hnone, fun _ hj => absurd hj (Nat.not_lt_zero _)⟩
    · exact ⟨rfl, 1, .sourceTerminal hnone, fun _ hj _ hobj => absurd (hobj.one_le hmem) (by omega)⟩
  rintro sends b _ ⟨rfl, hsource⟩
  refine .bind ((ends_findTerminal h .input target).imp ?_ ?_)
  swap
  · rintro e _ _ ⟨rfl, ⟨rfl, hnone⟩ | ⟨rfl, hmem, hnone⟩⟩
    · exact ⟨rfl, 2, .targetNode hnone,
        fun _ hj _ hobj => absurd (hobj.two_le hsource) (by omega)⟩
    · exact ⟨rfl, 3, .targetTerminal hnone,
        fun _ hj _ hobj => absurd (hobj.three_le hsource hmem) (by omega)⟩
  rintro takes b _ ⟨rfl, htarget⟩
  refine .bind (.read (.bind (.read (.ite (fun hne => ?_) fun heq => ?_))))
  · exact .fail ⟨rfl, 4, .types hsource htarget hne,
      fun _ hj _ hobj => absurd (hobj.four_le hsource htarget) (by omega)⟩
  replace heq : sends.type = takes.type := Decidable.not_not.1 heq
  rw [← heq] at htarget
  refine .bind (.read (.ite (fun hoccupied => ?_) fun hfree => ?_))
  · exact .fail ⟨rfl, 5, .occupied htarget (occupied_iff.1 hoccupied),
      fun _ hj _ hobj => absurd (hobj.five_le h hsource htarget) (by omega)⟩
  · have hfree : (⟨b.numbers[target.node]!, takes.index⟩ : TerminalId) ∉
        b.connections.map Connection.target :=
      fun hmem => hfree (occupied_iff.2 hmem)
    exact .modify ⟨fun _ _ hobj => hfree (hobj.occupied_of h hsource htarget),
      h.connect ⟨hsource, htarget, rfl⟩ hfree, rfl⟩

/-- **One request.**  It is granted if nothing speaks against it, and fails with the first
objection otherwise, which leaves the builder as it was. -/
theorem ends_perform (h : b.Holds added wires) (request : Request ν) :
    Script.Ends request.perform b
      (fun _ b' _ => (∀ i e, ¬Objection added b.connections request i e) ∧
        b'.Holds (added ++ request.node?.toList)
          (wires ++ (request.wire? b.defaultCapacity).toList) ∧
        b'.defaultCapacity = b.defaultCapacity)
      fun e b' _ => b' = b ∧ FirstObjection added b.connections request e := by
  match request with
  | .add name node =>
    refine (ends_add h name node).imp ?_ ?_
    · rintro _ b' _ ⟨hname, hb', hcapacity⟩
      refine ⟨?_, by simpa [Request.node?, Request.wire?] using hb', hcapacity⟩
      rintro i e ⟨hmem⟩
      exact hname hmem
    · rintro e _ _ ⟨rfl, rfl, hname⟩
      exact ⟨rfl, 0, .name hname, fun _ hj => absurd hj (Nat.not_lt_zero _)⟩
  | .connect source target (some capacity) =>
    refine .mapError ((ends_connect h source target capacity (some capacity)).imp ?_ ?_)
    · rintro _ b' _ ⟨hnone, hb', hcapacity⟩
      exact ⟨hnone, by simpa [Request.node?, Request.wire?] using hb', hcapacity⟩
    · exact fun _ _ _ hfails => hfails
  | .connect source target none =>
    refine .mapError (.bind (.read ((ends_connect h source target _ none).imp ?_ ?_)))
    · rintro _ b' _ ⟨hnone, hb', hcapacity⟩
      exact ⟨hnone, by simpa [Request.node?, Request.wire?] using hb', hcapacity⟩
    · exact fun _ _ _ hfails => hfails

end Steps

/-! ## All requests -/

theorem holds_empty (capacity : Nat) :
    ({ defaultCapacity := capacity } : Builder ν).Holds [] [] where
  distinct := List.nodup_nil
  nodes := rfl
  numbers := by simp
  schemas := by simp
  next := rfl
  connections := .nil
  exclusive := List.nodup_nil

/-- What the requests that are granted from here on add to the nodes and the connections. -/
theorem performAll_from {added : List (String × ν)} {wires : List Wire}
    (requests : List (Request ν)) {b : Builder ν} (h : b.Holds added wires) :
    let granted := Request.granted requests (Request.performAll b requests).1
    (Request.performAll b requests).2.Holds (added ++ granted.filterMap Request.node?)
      (wires ++ granted.filterMap (Request.wire? b.defaultCapacity)) := by
  induction requests generalizing b added wires with
  | nil => simpa [Request.performAll] using h
  | cons request requests ih =>
    have hone := ends_perform h request
    unfold Script.Ends at hone
    rcases hrun : request.perform.run b with ⟨e | ⟨⟩, b₁, effects⟩
    · rw [hrun] at hone
      obtain ⟨rfl, -⟩ := hone
      simpa [Request.performAll, hrun] using ih h
    · rw [hrun] at hone
      obtain ⟨-, h₁, hcapacity⟩ := hone
      have hrest := ih h₁
      rw [hcapacity] at hrest
      cases request <;>
        simpa [Request.performAll, hrun, Request.node?, Request.wire?, List.filterMap_cons]
          using hrest

/-- A request fails exactly with the first objection, and then leaves the builder as it was. -/
theorem Holds.fails_iff {added : List (String × ν)} {wires : List Wire} {b : Builder ν}
    (h : b.Holds added wires) (request : Request ν) (e : GraphError) :
    ((request.perform.run b).result = .error e ↔
      FirstObjection added b.connections request e) ∧
    ((request.perform.run b).result = .error e → (request.perform.run b).state = b) := by
  have hone := ends_perform h request
  unfold Script.Ends at hone
  rcases hrun : request.perform.run b with ⟨e' | ⟨⟩, b', effects⟩
  · rw [hrun] at hone
    obtain ⟨rfl, hfirst⟩ := hone
    refine ⟨⟨?_, fun hfirst' => congrArg _ (hfirst.unique h hfirst')⟩, fun _ => rfl⟩
    rintro ⟨⟩
    exact hfirst
  · rw [hrun] at hone
    obtain ⟨hnone, -⟩ := hone
    refine ⟨⟨nofun, fun ⟨i, hi, _⟩ => absurd hi (hnone i e)⟩, nofun⟩

end Builder

/-- **A builder after any requests.**  Its tables are those of the nodes and the connections that
were granted: names are unique and stand for the nodes in the order they were added, every
connection leads from an outlet to an inlet of the same type and has the capacity asked for, and no
two lead to the same inlet.  The next request fails exactly if something speaks against it, with the
first objection, and then leaves all tables as they were. -/
theorem performAll_holds {ν : Type} [HasSchema ν] (capacity : Nat) (requests : List (Request ν)) :
    let (replies, b) := Request.performAll { defaultCapacity := capacity } requests
    let granted := Request.granted requests replies
    let added := granted.filterMap Request.node?
    b.Holds added (granted.filterMap (Request.wire? capacity)) ∧
      ∀ request : Request ν,
        (∀ e, (request.perform.run b).result = .error e ↔
          Builder.FirstObjection added b.connections request e) ∧
        ∀ e, (request.perform.run b).result = .error e → (request.perform.run b).state = b := by
  have h := Builder.performAll_from requests (Builder.holds_empty (ν := ν) capacity)
  exact ⟨h, fun request => ⟨fun e => (h.fails_iff request e).1, fun e => (h.fails_iff request e).2⟩⟩

/-! ## The graph that comes of it -/

/-- What becomes of a graph by a request. -/
def Graph.perform (g : Graph) : Request Node → Except GraphError Graph
  | .add name node => g.add name node
  | .connect source target (some capacity) =>
    (g.connect source target capacity).mapError .connection
  | .connect source target none => (g.connectByDefault source target).mapError .connection

/-- The graph to go on with: a request that fails leaves it as it is. -/
def Graph.after (g : Graph) (request : Request Node) : Graph :=
  match g.perform request with
  | .ok g' => g'
  | .error _ => g

namespace Builder

variable {added : List (String × Node)} {wires : List Wire} {b : Builder Node}

theorem Holds.nameOf? (h : b.Holds added wires) {number : Nat} {name : String} {node : Node}
    (hnode : added[number]? = some (name, node)) : b.nameOf? number = some name := by
  have hnumber := (h.numbers name number).2 ⟨node, hnode⟩
  unfold Builder.nameOf?
  cases hfind : b.numbers.toList.find? fun entry => entry.2 = number with
  | none =>
    have hnone := List.find?_eq_none.1 hfind (name, number)
      (Std.HashMap.mem_toList_iff_getElem?_eq_some.2 hnumber)
    simp at hnone
  | some entry =>
    obtain rfl : entry.2 = number := by simpa using List.find?_some hfind
    obtain ⟨node', hnode'⟩ := (h.numbers entry.1 entry.2).1
      (Std.HashMap.mem_toList_iff_getElem?_eq_some.1 (List.mem_of_find?_eq_some hfind))
    rw [hnode] at hnode'
    cases hnode'
    rfl

theorem Holds.graph (h : b.Holds added wires) :
    b.graph = ⟨added, b.connections, b.defaultCapacity⟩ := by
  have hnodes : b.nodes.filterMap (fun entry => (b.nameOf? entry.1).map (·, entry.2)) = added := by
    rw [h.nodes, List.filterMap_map]
    calc added.zipIdx.filterMap _
        = added.zipIdx.filterMap (some ∘ Prod.fst) := List.filterMap_congr fun entry hentry => by
          have hnode := List.mem_zipIdx_iff_getElem?.1 hentry
          simp [h.nameOf? hnode]
      _ = added := by simp
  rw [Builder.graph, hnodes]

/-- What a name stands for, in the graph and in the tables. -/
theorem Holds.find? (h : b.Holds added wires) (name : String) :
    b.graph.find? name = b.numbers[name]?.bind fun number =>
      added[number]?.map fun entry => (number, entry.2) := by
  rw [h.graph]
  unfold Graph.find?
  cases hfind : added.zipIdx.find? fun entry => entry.1.1 = name with
  | none =>
    have hname : b.numbers[name]? = none := by
      by_contra hsome
      obtain ⟨number, hnumber⟩ := Option.ne_none_iff_exists'.1 hsome
      obtain ⟨node, hnode⟩ := (h.numbers _ _).1 hnumber
      have hnone := List.find?_eq_none.1 hfind ((name, node), number)
        (List.mem_zipIdx_iff_getElem?.2 hnode)
      simp at hnone
    rw [hname]
    rfl
  | some entry =>
    obtain rfl : entry.1.1 = name := by simpa using List.find?_some hfind
    have hnode := List.mem_zipIdx_iff_getElem?.1 (List.mem_of_find?_eq_some hfind)
    rw [(h.numbers _ _).2 ⟨entry.1.2, hnode⟩, Option.bind_some, hnode]
    rfl

theorem run_schemaOf (h : b.Holds added wires) (name : String) :
    (schemaOf name).run b = ⟨match b.graph.find? name with
      | none => .error (.nodeNotFound name)
      | some (_, node) => .ok (HasSchema.schema node), b, []⟩ := by
  rw [h.find?, schemaOf, Script.run_bind, Script.run_read]
  cases b.numbers[name]? with
  | none => rfl
  | some number =>
    dsimp only
    rw [Option.bind_some, Option.bind_some, h.schemas]
    cases added[number]? <;> rfl

theorem run_findTerminal (h : b.Holds added wires) (direction : Direction) (name : TerminalName) :
    (findTerminal direction name).run b =
      ⟨(b.graph.findTerminal direction name).map Prod.snd, b, []⟩ := by
  rw [findTerminal, Script.run_bind, run_schemaOf h, Graph.findTerminal]
  cases b.graph.find? name.node with
  | none => rfl
  | some entry =>
    have hterminal : (HasSchema.schema entry.2).terminal? direction name.terminal =
        (Graph.terminalsOf direction entry.2).find? fun t => t.name = name.terminal := by
      cases direction <;> rfl
    dsimp only
    rw [hterminal]
    cases (Graph.terminalsOf direction entry.2).find? fun t => t.name = name.terminal <;> rfl

theorem Holds.number (h : b.Holds added wires) {direction : Direction} {name : TerminalName}
    {number : Nat} {terminal : Terminal}
    (hfound : b.graph.findTerminal direction name = .ok (number, terminal)) :
    b.numbers[name.node]! = number := by
  unfold Graph.findTerminal at hfound
  rw [h.find?] at hfound
  rw [getElem!_def]
  cases hnumber : b.numbers[name.node]? with
  | none => simp [hnumber] at hfound
  | some number' =>
    obtain ⟨node, hnode⟩ := (h.numbers _ _).1 hnumber
    rw [hnumber, Option.bind_some, hnode] at hfound
    dsimp only [Option.map_some] at hfound
    split at hfound
    · cases hfound
    · exact congrArg Prod.fst (Except.ok.inj hfound)

/-- A builder replies as a graph does, and holds the graph that comes of it. -/
def Replies {ε : Type} (m : Building Node ε Unit) (b : Builder Node) : Except ε Graph → Prop
  | .error e => m.run b = ⟨.error e, b, []⟩
  | .ok g => ∃ b', m.run b = ⟨.ok (), b', []⟩ ∧ b'.graph = g

theorem Replies.mapError {ε ε' : Type} {m : Building Node ε Unit} {reply : Except ε Graph}
    (h : Replies m b reply) (f : ε → ε') : Replies (m.mapError f) b (reply.mapError f) := by
  cases reply with
  | error e =>
    have hrun : m.run b = ⟨.error e, b, []⟩ := h
    change (m.mapError f).run b = ⟨.error (f e), b, []⟩
    rw [Script.run_mapError, hrun]
    rfl
  | ok g =>
    obtain ⟨b', hrun, hgraph⟩ := h
    refine ⟨b', ?_, hgraph⟩
    rw [Script.run_mapError, hrun]
    rfl

/-- Connecting two terminals that are there. -/
theorem connect_found {g : Graph} {source target : TerminalName} {capacity : Nat}
    {sends takes : Nat × Terminal} (hsource : g.findTerminal .output source = .ok sends)
    (htarget : g.findTerminal .input target = .ok takes) :
    g.connect source target capacity =
      if sends.2.type ≠ takes.2.type then
        .error (.typeMismatch source sends.2.type target takes.2.type)
      else if g.isOccupied ⟨takes.1, takes.2.index⟩ then .error (.duplicateConnection target)
      else .ok { g with connections := g.connections ++
        [⟨⟨sends.1, sends.2.index⟩, ⟨takes.1, takes.2.index⟩, sends.2.type, capacity⟩] } := by
  rw [Graph.connect, hsource, htarget]
  rfl

theorem replies_connect (h : b.Holds added wires) (source target : TerminalName) (capacity : Nat) :
    Replies (connect source target capacity) b (b.graph.connect source target capacity) := by
  unfold Replies
  rw [connect, Script.run_bind, run_findTerminal h]
  cases hsource : b.graph.findTerminal .output source with
  | error e =>
    rw [Graph.connect, hsource]
    rfl
  | ok sends =>
    dsimp only [Except.map]
    rw [Script.after_nil, Script.run_bind, run_findTerminal h]
    cases htarget : b.graph.findTerminal .input target with
    | error e =>
      rw [Graph.connect, hsource, htarget]
      rfl
    | ok takes =>
      dsimp only [Except.map]
      rw [Script.after_nil, Script.run_bind, Script.run_read, h.number hsource]
      dsimp only
      rw [Script.after_nil, Script.run_bind, Script.run_read, h.number htarget]
      dsimp only
      rw [Script.after_nil, connect_found hsource htarget]
      by_cases htypes : sends.2.type ≠ takes.2.type
      · rw [if_pos htypes, if_pos htypes]
        rfl
      · rw [if_neg htypes, if_neg htypes, Script.run_bind, Script.run_read]
        dsimp only
        rw [Script.after_nil]
        by_cases hoccupied : b.graph.isOccupied ⟨takes.1, takes.2.index⟩ = true
        · rw [if_pos hoccupied]
          exact congrArg (Script.run · b) (if_pos hoccupied)
        · rw [if_neg hoccupied]
          exact ⟨_, congrArg (Script.run · b) (if_neg hoccupied), rfl⟩

theorem replies_connectByDefault (h : b.Holds added wires) (source target : TerminalName) :
    Replies (connectByDefault source target) b (b.graph.connectByDefault source target) := by
  have hrun : (connectByDefault source target).run b =
      (connect source target b.defaultCapacity).run b := by
    rw [connectByDefault, Script.run_bind, Script.run_read]
    exact Script.after_nil _
  have hreplies := replies_connect h source target b.defaultCapacity
  unfold Replies at hreplies ⊢
  rw [hrun]
  exact hreplies

theorem replies_add (h : b.Holds added wires) (name : String) (node : Node) :
    Replies (add name node) b (b.graph.add name node) := by
  have hnames : b.graph.names = added.map Prod.fst := by rw [h.graph]; rfl
  unfold Graph.add
  by_cases hname : name ∈ added.map Prod.fst
  · rw [hnames, if_pos hname]
    exact congrArg (Script.run · b) (if_pos (h.contains_iff.2 hname))
  · rw [hnames, if_neg hname]
    refine ⟨_, congrArg (Script.run · b) (if_neg (mt h.contains_iff.1 hname)), ?_⟩
    exact (h.add node hname).graph.trans (by rw [h.graph])

/-- **A graph as tables and as lists.**  A builder replies to a request as the graph that it holds,
and goes on with the graph that comes of it. -/
theorem replies_perform (h : b.Holds added wires) (request : Request Node) :
    Replies request.perform b (b.graph.perform request) := by
  match request with
  | .add name node => exact replies_add h name node
  | .connect source target (some capacity) =>
    exact (replies_connect h source target capacity).mapError GraphError.connection
  | .connect source target none =>
    exact (replies_connectByDefault h source target).mapError GraphError.connection

theorem graph_perform (h : b.Holds added wires) (request : Request Node) :
    (request.perform.run b).state.graph = b.graph.after request := by
  have hreplies := replies_perform h request
  unfold Graph.after
  cases hreply : b.graph.perform request with
  | error e =>
    rw [hreply] at hreplies
    exact congrArg (fun t => t.state.graph) hreplies
  | ok g =>
    rw [hreply] at hreplies
    obtain ⟨b', hrun, rfl⟩ := hreplies
    rw [hrun]

theorem performAll_graph_from (requests : List (Request Node)) (h : b.Holds added wires) :
    (Request.performAll b requests).2.graph = requests.foldl Graph.after b.graph := by
  induction requests generalizing b added wires with
  | nil => rfl
  | cons request requests ih =>
    have hone := ends_perform h request
    have hgraph := graph_perform h request
    unfold Script.Ends at hone
    rw [List.foldl_cons, ← hgraph]
    rcases hrun : request.perform.run b with ⟨e | ⟨⟩, b', effects⟩
    · rw [hrun] at hone
      obtain ⟨rfl, -⟩ := hone
      simpa only [Request.performAll, hrun] using ih h
    · rw [hrun] at hone
      simpa only [Request.performAll, hrun] using ih hone.2.1

/-- The graph of a builder is the one that the same requests build up from an empty graph. -/
theorem performAll_graph (capacity : Nat) (requests : List (Request Node)) :
    (Request.performAll { defaultCapacity := capacity } requests).2.graph =
      requests.foldl Graph.after { defaultCapacity := capacity } := by
  rw [performAll_graph_from requests (holds_empty capacity), (holds_empty capacity).graph]

end Builder

end BusDecode
