import BusDecode.Proofs.Graph.Decoders

/-!
# Nodes and direct decoding

What the decoder of a node annotates when it is run directly on lists (`Decodes`), its node sends
when it is called until it halts on channels that deliver these lists; and the node halts at the end
of its input if the decoder succeeds, or else for the same reason (`works_decode`).
-/

set_option autoImplicit false

namespace BusDecode

/-! ## Direct decoding -/

/-- Run directly on lists, one for each inlet of the node, the decoder of a node ends with this
result and annotates this.  The four lists of an HVSP decoder are merged first. -/
inductive Decodes :
    Node → (type : ItemType) → List (List type.Carrier) → Except Halt Unit → List Annotation → Prop
  | updi (d : Updi.Decoder) (xs : List Sample) :
      Decodes (.updi d) .samples [xs] (d.decode xs (#[] : Array Annotation)).result
        (d.decode xs (#[] : Array Annotation)).sink.toList
  | mcp23s17 (d : Mcp23s17.Decoder) (xs : List Spi.Packet) :
      Decodes (.mcp23s17 d) .packets [xs]
        ((Mcp23s17.Decoder.decode.run (d, xs)).play (#[] : Array Annotation)).result
        ((Mcp23s17.Decoder.decode.run (d, xs)).play (#[] : Array Annotation)).sink.toList
  | max7219 (d : Max7219.Decoder) (xs : List Spi.Packet) :
      Decodes (.max7219 d) .packets [xs]
        ((Max7219.Decoder.decode.run (d, xs)).play (#[] : Array Annotation)).result
        ((Max7219.Decoder.decode.run (d, xs)).play (#[] : Array Annotation)).sink.toList
  | hvsp (d : Hvsp.Decoder) (lines : List (List Sample)) (vs : List PinVector)
      (hcount : lines.length = 4)
      (hmerged : ∀ k, Merger.answer k {} lines = vs[k]?.elim (.error .endOfStream) .ok) :
      Decodes (.hvsp d {}) .samples lines
        ((Hvsp.Decoder.decode.run (d, vs)).play (#[] : Array Annotation)).result
        ((Hvsp.Decoder.decode.run (d, vs)).play (#[] : Array Annotation)).sink.toList

/-- Any lines can be merged. -/
theorem Merger.exists_merged (lines : List (List Sample)) :
    ∃ vs, Run 0 lines vs ∧ ∀ k, answer k {} lines = vs[k]?.elim (.error .endOfStream) .ok := by
  obtain ⟨vs, hrun⟩ := exists_run 0 lines
  have hcalls := hrun.calls Source.alike_eq (List.forall₂_same.2 fun xs _ => Eq.refl xs)
  exact ⟨vs, hrun, fun k => (hcalls k).1⟩

namespace Halt

theorem ending_untilEnd (e : Halt) : ending (untilEnd (.error e)) = e := by
  cases e <;> rfl

end Halt

/-- Decoding directly is running up to the first step that fails, also without a sample rate. -/
theorem Updi.Decoder.decode_direct (d : Updi.Decoder) (xs : List Sample) :
    let t := run.run (⟨d, xs⟩ : OnLine (List Sample))
    ∃ events, d.decode xs (#[] : Array Annotation) =
      ⟨Halt.untilEnd t.result, t.state, t.items.toArray, events⟩ := by
  intro t
  cases hrate : d.config.samplerate with
  | none =>
    have hstep : step.run (⟨d, xs⟩ : OnLine (List Sample)) =
        ⟨.error (.undecodable .missingSampleRate), ⟨d, xs⟩, []⟩ := by
      unfold step
      simp only [hrate]
    rw [show t = _ from run_step_error hstep]
    unfold decode
    simp only [hrate]
    exact ⟨[], rfl⟩
  | some hz =>
    unfold decode
    simp only [hrate]
    rw [Trace.play_array, Array.empty_append]
    exact ⟨_, rfl⟩

namespace Decodes

variable {node : Node} {type : ItemType} {inputs : List (List type.Carrier)}
  {result : Except Halt Unit} {items : List Annotation}

/-- An HVSP decoder can be run directly on any four lines, as the others on any list. -/
theorem exists_hvsp (d : Hvsp.Decoder) (lines : List (List Sample)) (hcount : lines.length = 4) :
    ∃ result items, Decodes (.hvsp d {}) .samples lines result items := by
  obtain ⟨vs, -, hmerged⟩ := Merger.exists_merged lines
  exact ⟨_, _, .hvsp d lines vs hcount hmerged⟩

/-- Every direct decoding is one step after the other. -/
theorem exists_yields (h : Decodes node type inputs result items) :
    ∃ (D : Decoding type) (m : D.Memory) (final : D.Memory × List (List type.Carrier)),
      node = D.node m ∧ inputs.length = D.count ∧
      D.step.Yields (m, inputs) items (Halt.ending result) final := by
  cases h with
  | updi d xs =>
    obtain ⟨e, he, hyields⟩ := Decoding.updi_yields d xs
    obtain ⟨events, hdirect⟩ := d.decode_direct xs
    rw [hdirect, he, Halt.ending_untilEnd]
    exact ⟨.updi, d, _, rfl, rfl, hyields⟩
  | mcp23s17 d xs =>
    rw [Trace.play_array, Array.empty_append]
    exact ⟨.mcp23s17, d, _, rfl, rfl, Decoding.spi_yields Mcp23s17.Decoder.feed d xs⟩
  | max7219 d xs =>
    rw [Trace.play_array, Array.empty_append]
    exact ⟨.max7219, d, _, rfl, rfl, Decoding.spi_yields Max7219.Decoder.feed d xs⟩
  | hvsp d lines vs hcount hmerged =>
    obtain ⟨vs', hrun, hmerged'⟩ := Merger.exists_merged lines
    obtain rfl : vs' = vs := by
      refine List.ext_getElem? fun k => ?_
      have hk := (hmerged' k).symm.trans (hmerged k)
      cases hv' : vs'[k]? <;> cases hv : vs[k]? <;> rw [hv', hv] at hk <;> cases hk
      all_goals rfl
    rw [Trace.play_array, Array.empty_append]
    obtain ⟨m, xss', hyields⟩ := Decoding.hvsp_yields hrun d
    exact ⟨.hvsp, (d, {}), _, rfl, hcount, hyields⟩

end Decodes

/-! ## Nodes on channels that end -/

/-- Called until it halts, with a first outlet to this sender, a node does what its decoder does
directly: it sends the same annotations, halts for the same reason, and the node left behind is as
told. -/
structure WorksAs (start : Node.State) (sender : Sender Annotation) (more : List Outlet)
    (result : Except Halt Unit) (items : List Annotation) (left : Node) : Prop where
  halts : ∃ e final outlets,
    Node.Works start (.connected .annotations sender :: more) e final outlets
  agrees : ∀ e final outlets,
    Node.Works start (.connected .annotations sender :: more) e final outlets →
    e = Halt.ending result ∧ final.1 = left ∧
      outlets = .connected .annotations (sender.sent items) :: more

section Single

variable {sender : Sender Annotation} (hlive : sender.IsLive) (more : List Outlet)
include hlive

theorem Decoding.worksAs {type : ItemType} (D : Decoding type) (hcount : D.count = 1)
    {m : D.Memory} {xs : List type.Carrier} {c : Channel type.Carrier} (hc : c.Delivers xs)
    {items : List Annotation} {result : Except Halt Unit}
    {final : D.Memory × List (List type.Carrier)}
    (h : D.step.Yields (m, [xs]) items (Halt.ending result) final) :
    WorksAs (D.node m, [.ofChannel type c]) sender more result items (D.node final.1) := by
  have hserves : List.Forall₂ Receiver.Serves [({ channel := c } : Receiver type.Carrier)] [xs] :=
    .cons (Receiver.serves_channel hc) .nil
  have hlength := hserves.length_eq.trans hcount.symm
  obtain ⟨lines, hworks⟩ := D.works_yields h hlength hserves hlive more
  refine ⟨⟨_, _, _, hworks⟩, fun e left outlets hworks' => ?_⟩
  obtain ⟨rfl, rfl, rfl⟩ := hworks.unique hworks'
  exact ⟨rfl, rfl, rfl⟩

/-- **A node of one input agrees with direct decoding.**  Let its channel deliver a list and then
end, by a marker or because the sender is gone.  Called until it halts, the node sends every live
destination what the decoder annotates when it is run on the list; it halts at the end of its input
if the decoder succeeds and otherwise for the same reason; and its decoder is left as the direct run
leaves it, with the same counts and the same bit period. -/
theorem works_decode :
    (∀ (d : Updi.Decoder) (xs : List Sample) (c : Channel Sample), c.Delivers xs →
      let direct := d.decode xs (#[] : Array Annotation)
      WorksAs (.updi d, [.ofChannel .samples c]) sender more direct.result direct.sink.toList
        (.updi direct.state.decoder)) ∧
    (∀ (d : Mcp23s17.Decoder) (xs : List Spi.Packet) (c : Channel Spi.Packet), c.Delivers xs →
      let direct := (Mcp23s17.Decoder.decode.run (d, xs)).play (#[] : Array Annotation)
      WorksAs (.mcp23s17 d, [.ofChannel .packets c]) sender more direct.result direct.sink.toList
        (.mcp23s17 direct.state.1)) ∧
    ∀ (d : Max7219.Decoder) (xs : List Spi.Packet) (c : Channel Spi.Packet), c.Delivers xs →
      let direct := (Max7219.Decoder.decode.run (d, xs)).play (#[] : Array Annotation)
      WorksAs (.max7219 d, [.ofChannel .packets c]) sender more direct.result direct.sink.toList
        (.max7219 direct.state.1) := by
  refine ⟨?_, ?_, ?_⟩ <;> intro d xs c hc direct
  · obtain ⟨e, he, hyields⟩ := Decoding.updi_yields d xs
    obtain ⟨events, hdirect⟩ := d.decode_direct xs
    rw [show direct = _ from hdirect, he]
    rw [← Halt.ending_untilEnd e] at hyields
    exact Decoding.updi.worksAs hlive more rfl hc hyields
  · rw [show direct = _ from Trace.play_array _ _, Array.empty_append]
    exact Decoding.mcp23s17.worksAs hlive more rfl hc
      (Decoding.spi_yields Mcp23s17.Decoder.feed d xs)
  · rw [show direct = _ from Trace.play_array _ _, Array.empty_append]
    exact Decoding.max7219.worksAs hlive more rfl hc
      (Decoding.spi_yields Max7219.Decoder.feed d xs)

end Single

/-- A window of a single word, written behind an end marker or not at all, and a line without a
sample rate; of two destinations one is live. -/
theorem works_decode_short_write :
    let sender : Sender Annotation := ⟨[{ hasReceiver := false }, {}]⟩
    let packets : List Spi.Packet :=
      [.chipSelect true 10 10, .data ⟨0x0C, 12, 20⟩ none, .chipSelect false 30 30]
    let marked := Channel.ofItems packets (some [.data ⟨0x01, 22, 28⟩ none])
    let dropped := (Channel.ofItems [⟨0, true⟩, ⟨7, false⟩] none : Channel Sample).dropSender
    sender.IsLive ∧ marked.Delivers packets ∧ dropped.Delivers [⟨0, true⟩, ⟨7, false⟩] ∧
      (∃ final, Node.Works (.max7219 {}, [.ofChannel .packets marked])
        [.connected .annotations sender] .endOfStream final
        [.connected .annotations ⟨[{ hasReceiver := false },
          { queue := [.item (.warning 10 30 "Short write")] }]⟩]) ∧
      ∃ final, Node.Works (.updi {}, [.ofChannel .samples dropped])
        [.connected .annotations sender] (.undecodable .missingSampleRate) final
        [.connected .annotations sender] := by
  intro sender packets marked dropped
  have hlive : sender.IsLive := ⟨_, List.mem_cons_of_mem _ List.mem_cons_self, rfl⟩
  have hmarked : marked.Delivers packets := Channel.delivers_marked _ _
  have hdropped : dropped.Delivers [⟨0, true⟩, ⟨7, false⟩] := Channel.delivers_dropped _
  obtain ⟨hupdi, -, hmax7219⟩ := works_decode hlive []
  refine ⟨hlive, hmarked, hdropped, ?_, ?_⟩
  · obtain ⟨⟨e, final, outlets, hworks⟩, hall⟩ := hmax7219 {} packets marked hmarked
    obtain ⟨rfl, -, rfl⟩ := hall e final outlets hworks
    have hresult : ((Max7219.Decoder.decode.run (({} : Max7219.Decoder), packets)).play
        (#[] : Array Annotation)).result = .ok () := by
      decide +kernel
    have hitems : ((Max7219.Decoder.decode.run (({} : Max7219.Decoder), packets)).play
        (#[] : Array Annotation)).sink.toList = [.warning 10 30 "Short write"] := by
      decide +kernel
    rw [hresult, hitems] at hworks
    exact ⟨final, hworks⟩
  · obtain ⟨⟨e, final, outlets, hworks⟩, hall⟩ := hupdi {} _ dropped hdropped
    obtain ⟨rfl, -, rfl⟩ := hall e final outlets hworks
    exact ⟨final, hworks⟩

end BusDecode
