import BusDecode.Proofs.Graph.Direct
import BusDecode.Proofs.Graph.Steps
import Mathlib.Data.List.Sigma

/-!
# Pipelines

A pipeline is a graph of a decoder, a replay for each of its inlets, and a collector of what it
annotates (`Pipeline`).  Put to work, each of its threads holds the ends of the links one expects:
the threads it starts with are `Pipeline.feederThread`, `decoderThread` and `collectorThread`.
-/

set_option autoImplicit false

namespace BusDecode

/-- A graph in which replays of some lists feed the inlets of a decoder, in order, and a collector
keeps what it annotates.  The nodes may have been added and connected in any order, under any names
and with any capacities. -/
structure Pipeline (g : Graph) (node : Node) (type : ItemType)
    (inputs : List (List type.Carrier)) where
  /-- position of the replay of each inlet -/
  feeder : Nat → Nat
  decoder : Nat
  collector : Nat
  /-- name that the replay of each inlet reports under -/
  replayName : Nat → String
  /-- name of the collector in the graph -/
  collectorKey : String
  /-- position of the connection to each inlet -/
  feedLink : Nat → Nat
  /-- position of the connection to the collector -/
  outLink : Nat
  nodes : (decoder :: collector :: (List.range inputs.length).map feeder).Perm
    (List.range g.nodes.length)
  connections : (outLink :: (List.range inputs.length).map feedLink).Perm
    (List.range g.connections.length)
  replays : ∀ (j : Nat) xs, inputs[j]? = some xs →
    ∃ key, g.nodes[feeder j]? = some (key, .replay (replayName j) type xs 0)
  decodes : ∃ key, g.nodes[decoder]? = some (key, node)
  collects : ∃ name, g.nodes[collector]? = some (collectorKey, .collector name #[])
  feeds : ∀ j < inputs.length, ∃ capacity,
    g.connections[feedLink j]? = some ⟨⟨feeder j, 0⟩, ⟨decoder, j⟩, type, capacity⟩
  collectors : ∃ capacity,
    g.connections[outLink]? = some ⟨⟨decoder, 0⟩, ⟨collector, 0⟩, .annotations, capacity⟩

namespace Network

/-- The one connection of its kind. -/
theorem linksWhere_eq {g : Graph} {p : Connection → Bool} {link : Nat} {c : Connection}
    (hc : g.connections[link]? = some c) (hp : p c = true)
    (honly : ∀ (k : Nat) d, g.connections[k]? = some d → p d = true → k = link) :
    linksWhere g p = [(link, c)] := by
  have hnodup : (g.connections.zipIdx.filter fun entry => p entry.1).Nodup :=
    (List.Nodup.of_map Prod.snd (List.nodup_zipIdx_map_snd _)).filter _
  have hmem : ∀ entry, entry ∈ g.connections.zipIdx.filter (fun entry => p entry.1) ↔
      entry ∈ [(c, link)] := by
    intro ⟨d, k⟩
    rw [List.mem_filter, List.mk_mem_zipIdx_iff_getElem?, List.mem_singleton]
    constructor
    · rintro ⟨hd, hpd⟩
      obtain rfl := honly k d hd hpd
      rw [Option.some.inj (hd.symm.trans hc)]
    · rintro ⟨⟩
      exact ⟨hc, hp⟩
  have hsingle := ((List.perm_ext_iff_of_nodup hnodup (List.nodup_singleton _)).2 hmem).eq_singleton
  rw [linksWhere, hsingle]
  rfl

theorem ofGraph_of_build {g : Graph} {registry : Registry} {n : Network}
    (h : g.build registry = .ok n) : ofGraph g = n := by
  unfold Graph.build at h
  split at h
  · cases h
  · exact Except.ok.inj h

theorem thread_ofGraph {g : Graph} {i : Nat} {key : String} {node : Node}
    (h : g.nodes[i]? = some (key, node)) :
    (ofGraph g).threads[i]? = some (threadOf g i key node) := by
  simp [ofGraph, h]

theorem channel?_ofGraph {g : Graph} {link : Nat} {c : Connection}
    (h : g.connections[link]? = some c) : (ofGraph g).channel? link = some {} := by
  simp [channel?, ofGraph, h]

end Network

namespace Pipeline

variable {g : Graph} {node : Node} {type : ItemType} {inputs : List (List type.Carrier)}
  (p : Pipeline g node type inputs)

/-! ## Positions -/

theorem node_cases {i : Nat} (h : i < g.nodes.length) :
    i = p.decoder ∨ i = p.collector ∨ ∃ j < inputs.length, i = p.feeder j := by
  simpa [eq_comm] using p.nodes.mem_iff.2 (List.mem_range.2 h)

theorem connection_cases {link : Nat} {c : Connection} (h : g.connections[link]? = some c) :
    link = p.outLink ∨ ∃ j < inputs.length, link = p.feedLink j := by
  have hlt := (List.getElem?_eq_some_iff.1 h).1
  simpa [eq_comm] using p.connections.mem_iff.2 (List.mem_range.2 hlt)

theorem nodup_nodes :
    (p.decoder :: p.collector :: (List.range inputs.length).map p.feeder).Nodup :=
  p.nodes.nodup_iff.2 List.nodup_range

theorem nodup_connections : (p.outLink :: (List.range inputs.length).map p.feedLink).Nodup :=
  p.connections.nodup_iff.2 List.nodup_range

theorem decoder_ne_collector : p.decoder ≠ p.collector := by
  have h := p.nodup_nodes
  simp only [List.nodup_cons, List.mem_cons, not_or] at h
  exact h.1.1

section Feeder

variable {j : Nat} (hj : j < inputs.length)
include hj

theorem decoder_ne_feeder : p.decoder ≠ p.feeder j := by
  have h := p.nodup_nodes
  simp only [List.nodup_cons, List.mem_cons, not_or] at h
  exact fun heq => h.1.2 (heq ▸ List.mem_map_of_mem (List.mem_range.2 hj))

theorem collector_ne_feeder : p.collector ≠ p.feeder j := by
  have h := p.nodup_nodes
  simp only [List.nodup_cons] at h
  exact fun heq => h.2.1 (heq ▸ List.mem_map_of_mem (List.mem_range.2 hj))

theorem outLink_ne_feedLink : p.outLink ≠ p.feedLink j := by
  have h := p.nodup_connections
  simp only [List.nodup_cons] at h
  exact fun heq => h.1 (heq ▸ List.mem_map_of_mem (List.mem_range.2 hj))

variable {k : Nat} (hk : k < inputs.length)
include hk

theorem feeder_inj (h : p.feeder j = p.feeder k) : j = k :=
  List.inj_on_of_nodup_map (p.nodup_nodes.of_cons.of_cons) (List.mem_range.2 hj)
    (List.mem_range.2 hk) h

theorem feedLink_inj (h : p.feedLink j = p.feedLink k) : j = k :=
  List.inj_on_of_nodup_map p.nodup_connections.of_cons (List.mem_range.2 hj)
    (List.mem_range.2 hk) h

end Feeder

/-! ## Ends of the links -/

theorem fanout_decoder : Network.fanout g ⟨p.decoder, 0⟩ = some ⟨.annotations, [p.outLink]⟩ := by
  obtain ⟨capacity, hout⟩ := p.collectors
  have hlinks := Network.linksWhere_eq (p := fun c => c.source = ⟨p.decoder, 0⟩) hout (by simp)
    fun k d hd hsource => by
      obtain hk | ⟨j, hj, rfl⟩ := p.connection_cases hd
      · exact hk
      · obtain ⟨_, hfeed⟩ := p.feeds j hj
        cases hd.symm.trans hfeed
        exact absurd (by simpa [eq_comm] using hsource) (p.decoder_ne_feeder hj)
  rw [Network.fanout, hlinks]
  rfl

theorem feed_collector : ∃ capacity, Network.feed g ⟨p.collector, 0⟩ =
    some (p.outLink, ⟨⟨p.decoder, 0⟩, ⟨p.collector, 0⟩, .annotations, capacity⟩) := by
  obtain ⟨capacity, hout⟩ := p.collectors
  have hlinks := Network.linksWhere_eq (p := fun c => c.target = ⟨p.collector, 0⟩) hout (by simp)
    fun k d hd htarget => by
      obtain hk | ⟨j, hj, rfl⟩ := p.connection_cases hd
      · exact hk
      · obtain ⟨_, hfeed⟩ := p.feeds j hj
        cases hd.symm.trans hfeed
        simp only [TerminalId.mk.injEq, decide_eq_true_eq] at htarget
        exact absurd htarget.1 p.decoder_ne_collector
  exact ⟨capacity, by rw [Network.feed, hlinks]; rfl⟩

section Feeder

variable {j : Nat} (hj : j < inputs.length)
include hj

theorem fanout_feeder : Network.fanout g ⟨p.feeder j, 0⟩ = some ⟨type, [p.feedLink j]⟩ := by
  obtain ⟨capacity, hfeed⟩ := p.feeds j hj
  have hlinks := Network.linksWhere_eq (p := fun c => c.source = ⟨p.feeder j, 0⟩) hfeed (by simp)
    fun k d hd hsource => by
      obtain rfl | ⟨i, hi, rfl⟩ := p.connection_cases hd
      · obtain ⟨_, hout⟩ := p.collectors
        cases hd.symm.trans hout
        exact absurd (by simpa using hsource) (p.decoder_ne_feeder hj)
      · obtain ⟨_, hfeed'⟩ := p.feeds i hi
        cases hd.symm.trans hfeed'
        rw [p.feeder_inj hi hj (by simpa using hsource)]
  rw [Network.fanout, hlinks]
  rfl

theorem feed_decoder : ∃ capacity, Network.feed g ⟨p.decoder, j⟩ =
    some (p.feedLink j, ⟨⟨p.feeder j, 0⟩, ⟨p.decoder, j⟩, type, capacity⟩) := by
  obtain ⟨capacity, hfeed⟩ := p.feeds j hj
  have hlinks := Network.linksWhere_eq (p := fun c => c.target = ⟨p.decoder, j⟩) hfeed (by simp)
    fun k d hd htarget => by
      obtain rfl | ⟨i, hi, rfl⟩ := p.connection_cases hd
      · obtain ⟨_, hout⟩ := p.collectors
        cases hd.symm.trans hout
        simp only [TerminalId.mk.injEq, decide_eq_true_eq] at htarget
        exact absurd htarget.1.symm p.decoder_ne_collector
      · obtain ⟨_, hfeed'⟩ := p.feeds i hi
        cases hd.symm.trans hfeed'
        simp only [TerminalId.mk.injEq, decide_eq_true_eq] at htarget
        rw [htarget.2]
  exact ⟨capacity, by rw [Network.feed, hlinks]; rfl⟩

end Feeder

/-! ## Threads -/

/-- The thread of a replay at the beginning. -/
def feederThread (j : Nat) (xs : List type.Carrier) (key : String) : Thread :=
  .launch key (.replay (p.replayName j) type xs 0) [] [] [some ⟨type, [p.feedLink j]⟩]

/-- The thread of the decoder at the beginning. -/
def decoderThread (D : Decoding type) (m : D.Memory) (key : String) : Thread :=
  .launch key (D.node m) ((List.range D.count).map fun j => some (p.feedLink j))
    (List.replicate D.count (.connected type {})) [some ⟨.annotations, [p.outLink]⟩]

/-- The thread of the collector at the beginning. -/
def collectorThread (name : String) : Thread :=
  .launch p.collectorKey (.collector name #[]) [some p.outLink] [.connected .annotations {}] []

theorem thread_feeder {j : Nat} {xs : List type.Carrier} (hxs : inputs[j]? = some xs) :
    ∃ key, (Network.ofGraph g).threads[p.feeder j]? = some (p.feederThread j xs key) := by
  obtain ⟨key, hnode⟩ := p.replays j xs hxs
  refine ⟨key, (Network.thread_ofGraph hnode).trans (congrArg some ?_)⟩
  change Thread.launch key _ [] [] [Network.fanout g ⟨p.feeder j, 0⟩] = _
  rw [p.fanout_feeder (List.getElem?_eq_some_iff.1 hxs).1]
  rfl

theorem thread_decoder {D : Decoding type} {m : D.Memory} (hnode : node = D.node m)
    (hcount : inputs.length = D.count) :
    ∃ key, (Network.ofGraph g).threads[p.decoder]? = some (p.decoderThread D m key) := by
  obtain ⟨key, hdecoder⟩ := p.decodes
  subst hnode
  refine ⟨key, (Network.thread_ofGraph hdecoder).trans (congrArg some ?_)⟩
  have hfeeds : (D.node m).inputs.map (fun terminal => Network.feed g ⟨p.decoder, terminal.index⟩) =
      (List.range D.count).map fun j => Network.feed g ⟨p.decoder, j⟩ := by
    rw [← D.inputs m, List.map_map]
    rfl
  have hfanouts : (D.node m).outputs.map (fun terminal =>
      Network.fanout g ⟨p.decoder, terminal.index⟩) = [some ⟨.annotations, [p.outLink]⟩] := by
    have hmap := congrArg (List.map fun index => Network.fanout g ⟨p.decoder, index⟩) (D.outputs m)
    rw [List.map_map, List.map_singleton, p.fanout_decoder] at hmap
    exact hmap
  have hlinks : ((List.range D.count).map fun j => Network.feed g ⟨p.decoder, j⟩).map
      (Option.map Prod.fst) = (List.range D.count).map fun j => some (p.feedLink j) := by
    rw [List.map_map]
    refine List.map_congr_left fun j hj => ?_
    obtain ⟨_, hfeed⟩ := p.feed_decoder (hcount ▸ List.mem_range.1 hj)
    rw [Function.comp_apply, hfeed]
    rfl
  have hinlets : ((List.range D.count).map fun j => Network.feed g ⟨p.decoder, j⟩).map
      Network.inletAt = List.replicate D.count (.connected type {}) := by
    rw [List.map_map, List.eq_replicate_iff]
    refine ⟨by simp, fun inlet hinlet => ?_⟩
    obtain ⟨j, hj, rfl⟩ := List.mem_map.1 hinlet
    obtain ⟨_, hfeed⟩ := p.feed_decoder (hcount ▸ List.mem_range.1 hj)
    rw [Function.comp_apply, hfeed]
    rfl
  unfold Network.threadOf decoderThread
  dsimp only
  rw [hfeeds, hlinks, hinlets, hfanouts]

theorem thread_collector :
    ∃ name, (Network.ofGraph g).threads[p.collector]? = some (p.collectorThread name) := by
  obtain ⟨name, hnode⟩ := p.collects
  refine ⟨name, (Network.thread_ofGraph hnode).trans (congrArg some ?_)⟩
  obtain ⟨_, hfeed⟩ := p.feed_collector
  change Thread.launch _ _ [(Network.feed g ⟨p.collector, 0⟩).map Prod.fst]
    [Network.inletAt (Network.feed g ⟨p.collector, 0⟩)] [] = _
  rw [hfeed]
  rfl

end Pipeline

end BusDecode
