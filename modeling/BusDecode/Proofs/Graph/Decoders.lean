import BusDecode.Proofs.Faults
import BusDecode.Proofs.Graph.Decoding
import BusDecode.Proofs.Hvsp.Node
import BusDecode.Proofs.Merger.Runs
import BusDecode.Proofs.Updi.SameLine

/-!
# The decoders of the nodes

The nodes of a UPDI line, of SPI packets and of four HVSP lines are decoders as nodes work them
(`Decoding.updi`, `mcp23s17`, `max7219`, `hvsp`).  For each kind there is the step on lists
(`updiStep`, `spiStep`, `hvspStep`), the two ways in which calls agree with it (`updi_agrees`,
`updi_lags` and so on), and the fact that the direct run of the decoder is one step after the other
(`updi_yields` and so on).
-/

set_option autoImplicit false

namespace BusDecode

namespace Trace

variable {δ β β' ε α : Type}

theorem items_mapItem (f : β → β') (t : Trace δ β ε α) : (t.mapItem f).items = t.items.map f := by
  simp only [items, mapItem, List.filterMap_map, List.map_filterMap]
  congr 1
  funext e
  cases e <;> rfl

end Trace

/-- The reason for which a node halts whose decoder ends with a result. -/
def Halt.ending : Except Halt Unit → Halt
  | .ok () => .endOfStream
  | .error e => e

namespace Node

/-! ## Calls that annotate -/

section Annotating

variable {δ : Type} (t : Trace δ Annotation Halt Unit) (state : δ → State) (count : Unit → Nat)

theorem result_annotating : (annotating t state count).result = t.result.map count :=
  rfl

theorem succeeds_annotating : (annotating t state count).result.map (fun _ => ()) = t.result := by
  rw [result_annotating]
  cases t.result <;> rfl

theorem items_annotating :
    (annotating t state count).items = t.items.map (Item.mk .annotations) := by
  change ((t.mapState state).mapItem (Item.mk .annotations)).items = _
  rw [Trace.items_mapItem, Trace.items_mapState]

end Annotating

theorem firstReceiver?_connected {type : ItemType} (r : Receiver type.Carrier)
    (rest : List Inlet) : firstReceiver? type (.connected type r :: rest) = some r :=
  Inlet.receiver?_connected type r

end Node

namespace Decoding

/-! ## UPDI -/

section Updi

open Updi (Decoder)
open Updi.Decoder (OnLine)

/-- A step on the one line. -/
def updiStep : Script (Decoder × List (List Sample)) Annotation Halt Unit :=
  Script.focus (fun s => (⟨s.1, s.2.headD []⟩ : OnLine (List Sample)))
    (fun s => (s.decoder, [s.source])) Decoder.step

variable {targets : List (Option ItemType)} (hwrites : Node.writes .annotations targets)
  (d : Decoder)
include hwrites

theorem work_updi (r : Receiver Sample) :
    Node.work targets (Node.withLines .samples Node.updi d [r]) =
      Node.annotating (Decoder.step.run (⟨d, r⟩ : OnLine (Receiver Sample)))
        (fun s => Node.withLines .samples Node.updi s.decoder [s.source]) fun () =>
          (Decoder.step.run (⟨d, r⟩ : OnLine (Receiver Sample))).state.decoder.stats.commands -
            d.stats.commands := by
  change Node.workUpdi targets d [.connected .samples r] = _
  unfold Node.workUpdi
  rw [Node.firstReceiver?_connected]
  dsimp only
  rw [if_pos hwrites]
  rfl

theorem updi_agrees {lines : List (Receiver Sample)} {xss : List (List Sample)}
    (hcount : lines.length = 1) (hserves : List.Forall₂ Receiver.Serves lines xss) :
    Node.Agrees .samples Node.updi 1 (Node.work targets (Node.withLines .samples Node.updi d lines))
      (updiStep.run (d, xss)) := by
  obtain ⟨r, rfl⟩ := List.length_eq_one_iff.1 hcount
  obtain ⟨xs, xss, hserve, hnil, rfl⟩ := List.forall₂_cons_left_iff.1 hserves
  obtain rfl := List.forall₂_nil_left_iff.1 hnil
  obtain ⟨hresult, hstate, hitems⟩ := Updi.alike_step_beside Receiver.alike_serves
    (⟨d, r⟩ : OnLine (Receiver Sample)) (⟨d, xs⟩ : OnLine (List Sample)) ⟨rfl, hserve⟩
  rw [work_updi hwrites]
  refine ⟨(Node.succeeds_annotating _ _ _).trans hresult, ?_, ?_⟩
  · have hstep : (updiStep.run (d, [xs])).items =
        (Decoder.step.run (⟨d, xs⟩ : OnLine (List Sample))).items := Trace.items_mapState _ _
    rw [Node.items_annotating, hitems, hstep]
  · exact ⟨_, congrArg (Node.withLines .samples Node.updi · _) hstate.decoder, rfl,
      .cons hstate.source .nil⟩

theorem updi_lags {lines lines' : List (Receiver Sample)}
    {prospect : Nat → Receiver.Prospect Sample} (hcount : lines.length = 1)
    (hgrown : Linewise (fun j => Receiver.Grown (prospect j)) lines lines') :
    Node.Lags .samples Node.updi prospect 1
      (Node.work targets (Node.withLines .samples Node.updi d lines))
      (Node.work targets (Node.withLines .samples Node.updi d lines')) := by
  obtain ⟨r, rfl⟩ := List.length_eq_one_iff.1 hcount
  obtain ⟨r', rfl⟩ := List.length_eq_one_iff.1 hgrown.length.symm
  have hcut := Updi.cut_step (K := Receiver.Grown (prospect 0)) Receiver.breaks_grown (by decide)
    (⟨d, r⟩ : OnLine (Receiver Sample)) (⟨d, r'⟩ : OnLine (Receiver Sample)) ⟨rfl, hgrown.head⟩
  rw [work_updi hwrites, work_updi hwrites]
  cases hcut with
  | whole result state shown =>
    obtain ⟨hdecoder, hsource⟩ := state
    refine .whole ?_ ?_ ⟨_, _, _, rfl, ?_, rfl, .cons hsource .nil⟩
    · rw [Node.result_annotating, Node.result_annotating, result, hdecoder]
    · rw [Node.items_annotating, Node.items_annotating, Trace.items_eq, shown, ← Trace.items_eq]
    · exact congrArg (Node.withLines .samples Node.updi · _) hdecoder.symm
  | short result state shown =>
    refine .short ?_ ?_ ⟨_, _, rfl, rfl, ?_, _, List.mem_cons_self, state.dry⟩
    · exact congrArg (Except.map _) result
    · rw [Node.items_annotating, Node.items_annotating, Trace.items_eq, Trace.items_eq]
      exact (shown.filterMap _).map _
    · intro j r hr
      obtain ⟨hj, rfl⟩ := List.getElem?_eq_some_iff.1 hr
      obtain rfl : j = 0 := Nat.lt_one_iff.1 hj
      exact state.isOpen

omit hwrites

/-- Run directly on a line, the decoder takes steps until one fails. -/
theorem updi_yields (xs : List Sample) :
    ∃ e, (Decoder.run.run (⟨d, xs⟩ : OnLine (List Sample))).result = .error e ∧
      updiStep.Yields (d, [xs]) (Decoder.run.run (⟨d, xs⟩ : OnLine (List Sample))).items e
        ((Decoder.run.run (⟨d, xs⟩ : OnLine (List Sample))).state.decoder,
          [(Decoder.run.run (⟨d, xs⟩ : OnLine (List Sample))).state.source]) := by
  induction hn : (⟨d, xs⟩ : OnLine (List Sample)).unread using Nat.strongRecOn
    generalizing d xs with
  | ind n ih =>
    subst hn
    have hrun : updiStep.run (d, [xs]) =
        (Decoder.step.run (⟨d, xs⟩ : OnLine (List Sample))).mapState
          fun s => (s.decoder, [s.source]) := rfl
    rcases hstep : Decoder.step.run (⟨d, xs⟩ : OnLine (List Sample)) with
      ⟨e | _, ⟨d', xs'⟩, effects⟩ <;> rw [hstep] at hrun
    · rw [Decoder.run_step_error hstep]
      exact ⟨e, rfl, .stop_of hrun rfl⟩
    · have hfewer := Decoder.consumes_step _ () (congrArg Trace.result hstep)
      rw [hstep] at hfewer
      obtain ⟨e, herror, hrest⟩ := ih _ hfewer d' xs' rfl
      rw [Decoder.run_step_ok hstep, Trace.items_after]
      exact ⟨e, herror, .again_of hrun rfl hrest⟩

end Updi

/-! ## SPI -/

section Spi

variable {δ : Type} (node : δ → Node) (feed : Spi.Packet → Script δ Annotation Halt Unit)

/-- Takes one packet of the one input. -/
def spiStep : Script (δ × List (List Spi.Packet)) Annotation Halt Unit :=
  ⟨fun s =>
    match s.2.headD [] with
    | [] => ⟨.error .endOfStream, (s.1, [[]]), []⟩
    | packet :: rest => ((feed packet).run s.1).mapState (·, [rest])⟩

/-- What a call makes of the packet it has received. -/
def spiCall (d : δ) (received : Except Halt Spi.Packet × Receiver Spi.Packet) : Node.Call :=
  let told := (Source.takeEvents received.2).1.map .note
  let lines := [(Source.takeEvents received.2).2]
  match received.1 with
  | .error e => ⟨.error e, Node.withLines .packets node d lines, told⟩
  | .ok packet =>
    (Node.annotating ((feed packet).run d) (Node.withLines .packets node · lines)
      fun () => 1).after told

variable {targets : List (Option ItemType)} (hwrites : Node.writes .annotations targets) (d : δ)
include hwrites

theorem work_spi (r : Receiver Spi.Packet) :
    Node.workSpi targets node feed d [.connected .packets r] =
      spiCall node feed d (Source.recv r) := by
  unfold Node.workSpi Node.reading
  rw [Node.firstReceiver?_connected]
  dsimp only [spiCall]
  generalize Source.recv r = received
  obtain ⟨item, r⟩ := received
  cases item with
  | error e => rfl
  | ok packet =>
    dsimp only
    rw [if_pos hwrites]
    rfl

theorem spi_agrees {lines : List (Receiver Spi.Packet)} {xss : List (List Spi.Packet)}
    (hcount : lines.length = 1) (hserves : List.Forall₂ Receiver.Serves lines xss) :
    Node.Agrees .packets node 1
      (Node.workSpi targets node feed d (lines.map (Inlet.connected .packets)))
      ((spiStep feed).run (d, xss)) := by
  obtain ⟨r, rfl⟩ := List.length_eq_one_iff.1 hcount
  obtain ⟨xs, xss, hserve, hnil, rfl⟩ := List.forall₂_cons_left_iff.1 hserves
  obtain rfl := List.forall₂_nil_left_iff.1 hnil
  obtain ⟨hitem, hrel⟩ := hserve.recv
  have hleft := Receiver.alike_serves.takeEvents _ _ hrel
  rw [List.map_singleton, work_spi node feed hwrites]
  unfold spiCall
  dsimp only
  rw [hitem]
  cases xs with
  | nil => exact ⟨rfl, Trace.filterMap_noted _, _, rfl, rfl, .cons hleft .nil⟩
  | cons packet rest =>
    dsimp only [Source.recv_cons]
    refine ⟨Node.succeeds_annotating _ _ _, ?_, _, rfl, rfl, .cons hleft .nil⟩
    rw [Trace.items_after, Trace.filterMap_noted, List.nil_append, Node.items_annotating]
    exact congrArg _ (Trace.items_mapState _ _).symm

theorem spi_lags {lines lines' : List (Receiver Spi.Packet)}
    {prospect : Nat → Receiver.Prospect Spi.Packet} (hcount : lines.length = 1)
    (hgrown : Linewise (fun j => Receiver.Grown (prospect j)) lines lines') :
    Node.Lags .packets node prospect 1
      (Node.workSpi targets node feed d (lines.map (Inlet.connected .packets)))
      (Node.workSpi targets node feed d (lines'.map (Inlet.connected .packets))) := by
  obtain ⟨r, rfl⟩ := List.length_eq_one_iff.1 hcount
  obtain ⟨r', rfl⟩ := List.length_eq_one_iff.1 hgrown.length.symm
  rw [List.map_singleton, List.map_singleton, work_spi node feed hwrites,
    work_spi node feed hwrites]
  have hbreaks := Receiver.breaks_grown (p := prospect 0)
  obtain ⟨item, s, s', hs, hs', hrel⟩ | ⟨s, hs, hstarved⟩ := (hbreaks.recv _ _ hgrown.head).cases
  · obtain ⟨htold, hleft⟩ := hbreaks.takeEvents _ _ hrel
    rw [hs, hs']
    unfold spiCall
    dsimp only
    cases item with
    | error e =>
      refine .whole rfl ?_ ⟨_, _, _, rfl, rfl, rfl, .cons hleft .nil⟩
      exact (Trace.filterMap_noted _).trans (Trace.filterMap_noted _).symm
    | ok packet =>
      refine .whole rfl ?_ ⟨_, _, _, rfl, rfl, rfl, .cons hleft .nil⟩
      rw [Trace.items_after, Trace.items_after, Trace.filterMap_noted, Trace.filterMap_noted,
        Node.items_annotating, Node.items_annotating]
  · have hsilent := hbreaks.silent _ hstarved
    rw [hs]
    unfold spiCall
    dsimp only
    refine .short rfl ?_ ⟨_, _, rfl, rfl, ?_, _, List.mem_cons_self, hsilent ▸ hstarved.dry⟩
    · rw [Trace.items_mk, Trace.filterMap_noted]
      exact List.nil_prefix
    · intro j r hr
      obtain ⟨hj, rfl⟩ := List.getElem?_eq_some_iff.1 hr
      obtain rfl : j = 0 := Nat.lt_one_iff.1 hj
      exact hsilent ▸ hstarved.isOpen

omit hwrites

/-- Run directly on a list of packets, the decoder takes them all unless one fails. -/
theorem spi_yields (xs : List Spi.Packet) :
    let t := (Script.drain feed).run (d, xs)
    (spiStep feed).Yields (d, [xs]) t.items (Halt.ending t.result) (t.state.1, [t.state.2]) := by
  induction xs generalizing d with
  | nil =>
    intro t
    rw [show t = _ from Script.run_drain_nil d]
    exact .stop rfl
  | cons packet rest ih =>
    intro t
    have hstep : (spiStep feed).run (d, [packet :: rest]) =
        ((feed packet).run d).mapState (·, [rest]) := rfl
    rcases hfeed : (feed packet).run d with ⟨e | _, d', effects⟩ <;> rw [hfeed] at hstep
    · rw [show t = Trace.mapState (·, rest) ⟨.error e, d', effects⟩ from
        Script.run_drain_cons_error hfeed, Trace.items_mapState]
      exact .stop_of hstep rfl
    · rw [show t = _ from Script.run_drain_cons hfeed, Trace.items_after, List.filterMap_map,
        show Effect.item? ∘ Effect.mapState (·, rest) = Effect.item? from
          funext (Trace.item?_mapState _)]
      exact .again_of hstep rfl (ih d')

end Spi

/-! ## HVSP -/

section Hvsp

open Hvsp (Decoder nodeAt)

/-- Merges the lines up to the next change and takes the pin vector. -/
def hvspStep : Script ((Decoder × Merger) × List (List Sample)) Annotation Halt Unit :=
  ⟨fun s =>
    match s.1.2.next s.2 with
    | (.error e, m, xss, _) => ⟨.error e, ((s.1.1, m), xss), []⟩
    | (.ok v, m, xss, _) => ((Decoder.feed v).run s.1.1).mapState fun d => ((d, m), xss)⟩

/-- The node, by its decoder and its merger. -/
def hvspNode (s : Decoder × Merger) : Node :=
  .hvsp s.1 s.2

/-- The step at the earliest sample of any line. -/
theorem run_hvspStep {xss : List (List Sample)} {time : Nat} (d : Decoder) (m : Merger)
    (htime : (Merger.headTimes xss).min? = some time) :
    hvspStep.run ((d, m), xss) =
      ((Decoder.feed ⟨time, Merger.settle time 0 m.pins xss⟩).run d).mapState fun d =>
        ((d, ⟨Merger.settle time 0 m.pins xss⟩), xss.map (Merger.past time)) := by
  obtain ⟨xss', told, hnext, hxss'⟩ := Merger.next_reads Source.alike_eq m
    (List.forall₂_same.2 fun xs _ => Eq.refl xs) htime
  obtain rfl := List.forall₂_eq_eq_eq ▸ hxss'
  unfold hvspStep
  dsimp only
  rw [hnext]

theorem run_hvspStep_end {xss : List (List Sample)} (d : Decoder) (m : Merger)
    (hnone : Merger.headTimes xss = []) :
    hvspStep.run ((d, m), xss) = ⟨.error .endOfStream, ((d, m), xss), []⟩ := by
  obtain ⟨xss', told, hnext, hxss'⟩ := Merger.next_reads_end Source.alike_eq m
    (List.forall₂_same.2 fun xs _ => Eq.refl xs) hnone
  obtain rfl := List.forall₂_eq_eq_eq ▸ hxss'
  unfold hvspStep
  dsimp only
  rw [hnext]

variable {targets : List (Option ItemType)} (hwrites : Node.writes .annotations targets)
  (s : Decoder × Merger)
include hwrites

theorem hvsp_agrees {lines : List (Receiver Sample)} {xss : List (List Sample)}
    (hcount : lines.length = 4) (hserves : List.Forall₂ Receiver.Serves lines xss) :
    Node.Agrees .samples hvspNode 4
      (Node.work targets (Node.withLines .samples hvspNode s lines))
      (hvspStep.run (s, xss)) := by
  obtain ⟨d, m⟩ := s
  have hwork := Hvsp.work_nodeAt (d := d) (m := m) hcount hwrites
  change Node.Agrees _ _ _ (Node.work targets (nodeAt d m lines)) _
  cases hmin : (Merger.headTimes xss).min? with
  | none =>
    have hnone := List.min?_eq_none_iff.1 hmin
    obtain ⟨lines', told, hnext, hserves'⟩ :=
      Merger.next_reads_end Receiver.alike_serves m hserves hnone
    rw [hwork, hnext, run_hvspStep_end d m hnone]
    refine ⟨rfl, Trace.filterMap_noted _, lines', rfl, ?_, hserves'⟩
    rw [hserves'.length_eq, ← hserves.length_eq, hcount]
  | some time =>
    obtain ⟨lines', told, hnext, hserves'⟩ :=
      Merger.next_reads Receiver.alike_serves m hserves hmin
    rw [hwork, hnext, run_hvspStep d m hmin]
    refine ⟨Node.succeeds_annotating _ _ _, ?_, lines', rfl, ?_, hserves'⟩
    · dsimp only
      rw [Trace.items_after, Trace.filterMap_noted, List.nil_append, Node.items_annotating,
        Trace.items_mapState]
    · rw [hserves'.length_eq, List.length_map, ← hserves.length_eq, hcount]

theorem hvsp_lags {lines lines' : List (Receiver Sample)}
    {prospect : Nat → Receiver.Prospect Sample} (hcount : lines.length = 4)
    (hgrown : Linewise (fun j => Receiver.Grown (prospect j)) lines lines') :
    Node.Lags .samples hvspNode prospect 4
      (Node.work targets (Node.withLines .samples hvspNode s lines))
      (Node.work targets (Node.withLines .samples hvspNode s lines')) := by
  obtain ⟨d, m⟩ := s
  have hcount' : lines'.length = 4 := hgrown.length ▸ hcount
  have hwork := Hvsp.work_nodeAt (d := d) (m := m) hcount hwrites
  have hwork' := Hvsp.work_nodeAt (d := d) (m := m) hcount' hwrites
  change Node.Lags _ _ _ _ (Node.work targets (nodeAt d m lines))
    (Node.work targets (nodeAt d m lines'))
  rw [hwork, hwork']
  obtain ⟨v, m', ls, ls', told, hnext, hnext', hrel⟩ | ⟨m', ls, told, hnext, hspoilt⟩ :=
    Merger.next_until (fun j => Receiver.breaks_grown (p := prospect j)) (by decide) m hgrown
  · have hlength := m.length_next lines
    rw [hnext] at hlength
    rw [hnext, hnext']
    cases v with
    | error e =>
      refine .whole rfl ?_ ⟨(d, m'), ls, ls', rfl, rfl, hlength.trans hcount, hrel⟩
      exact (Trace.filterMap_noted _).trans (Trace.filterMap_noted _).symm
    | ok v =>
      refine .whole rfl ?_
        ⟨(((Decoder.feed v).run d).state, m'), ls, ls', rfl, rfl, hlength.trans hcount, hrel⟩
      dsimp only
      rw [Trace.items_after, Trace.items_after, Node.items_annotating, Node.items_annotating]
  · rw [hnext]
    obtain ⟨k, s, hs, hstarved⟩ := hspoilt.broken
    refine .short rfl ?_ ⟨(d, m'), ls, rfl, hspoilt.length.trans hcount', fun j r hr => ?_, s,
      List.mem_of_getElem? hs, hstarved.dry⟩
    · dsimp only
      rw [Trace.items_mk, Trace.filterMap_noted]
      exact List.nil_prefix
    · rcases hspoilt.rel j r hr with ⟨r', hgrown'⟩ | hstarved
      · exact hgrown'.isOpen
      · exact hstarved.isOpen

omit hwrites

/-- Run directly on the merged lines, the decoder takes the pin vectors one by one. -/
theorem hvsp_yields {pins : UInt16} {xss : List (List Sample)} {vs : List PinVector}
    (hrun : Merger.Run pins xss vs) (d : Decoder) :
    let t := (Script.drain Decoder.feed).run (d, vs)
    ∃ m xss', hvspStep.Yields ((d, ⟨pins⟩), xss) t.items (Halt.ending t.result)
      ((t.state.1, m), xss') := by
  induction hrun generalizing d with
  | @done pins xss hnone =>
    intro t
    rw [show t = _ from Script.run_drain_nil d]
    have hend : hvspStep.run ((d, ⟨pins⟩), xss) =
        Trace.mapState (fun d => ((d, ⟨pins⟩), xss)) ⟨.error .endOfStream, d, []⟩ :=
      run_hvspStep_end d ⟨pins⟩ hnone
    exact ⟨⟨pins⟩, xss, .stop_of hend rfl⟩
  | @step pins xss time vs hmin hvs ih =>
    intro t
    have hstep := run_hvspStep d ⟨pins⟩ hmin
    rcases hfeed : (Decoder.feed ⟨time, Merger.settle time 0 pins xss⟩).run d with
      ⟨e | _, d', effects⟩ <;> rw [hfeed] at hstep
    · rw [show t = Trace.mapState (·, vs) ⟨.error e, d', effects⟩ from
        Script.run_drain_cons_error hfeed, Trace.items_mapState]
      exact ⟨_, _, .stop_of hstep rfl⟩
    · obtain ⟨m, xss', hrest⟩ := ih d'
      rw [show t = _ from Script.run_drain_cons hfeed, Trace.items_after, List.filterMap_map,
        show Effect.item? ∘ Effect.mapState (·, vs) = Effect.item? from
          funext (Trace.item?_mapState _)]
      exact ⟨m, xss', .again_of hstep rfl hrest⟩

end Hvsp

/-! ## The four decoders -/

/-- The decoder of a node of one UPDI line. -/
def updi : Decoding .samples where
  Memory := Updi.Decoder
  node := .updi
  count := 1
  step := updiStep
  inputs _ := rfl
  outputs _ := rfl
  kept _ := rfl
  agrees d _ _ hwrites := updi_agrees hwrites d
  lags d _ _ _ hwrites := updi_lags hwrites d

def mcp23s17 : Decoding .packets where
  Memory := Mcp23s17.Decoder
  node := .mcp23s17
  count := 1
  step := spiStep Mcp23s17.Decoder.feed
  inputs _ := rfl
  outputs _ := rfl
  kept _ := rfl
  agrees d _ _ hwrites := spi_agrees .mcp23s17 Mcp23s17.Decoder.feed hwrites d
  lags d _ _ _ hwrites := spi_lags .mcp23s17 Mcp23s17.Decoder.feed hwrites d

def max7219 : Decoding .packets where
  Memory := Max7219.Decoder
  node := .max7219
  count := 1
  step := spiStep Max7219.Decoder.feed
  inputs _ := rfl
  outputs _ := rfl
  kept _ := rfl
  agrees d _ _ hwrites := spi_agrees .max7219 Max7219.Decoder.feed hwrites d
  lags d _ _ _ hwrites := spi_lags .max7219 Max7219.Decoder.feed hwrites d

/-- The decoder of a node of four HVSP lines. -/
def hvsp : Decoding .samples where
  Memory := Hvsp.Decoder × Merger
  node := hvspNode
  count := 4
  step := hvspStep
  inputs _ := rfl
  outputs _ := rfl
  kept _ := rfl
  agrees s _ _ hwrites := hvsp_agrees hwrites s
  lags s _ _ _ hwrites := hvsp_lags hwrites s

end Decoding

end BusDecode
