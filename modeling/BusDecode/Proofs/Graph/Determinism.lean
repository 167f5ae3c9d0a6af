import BusDecode.Proofs.Graph.Pipeline
import BusDecode.Proofs.Graph.Roles

/-!
# Pipelines decode the same under every schedule

Whatever thread takes the next step, a pipeline stays one in which nothing is lost, doubled or out
of order: what is due at either end of a link agrees (`Pipeline.Standing`), and fewer steps are left
to take.  So what its collector has kept are the first of the annotations of direct decoding, and
all of them once every thread has ended (`Pipeline.collected_decodes`).  What is due to a reader
stands in place of the history of its channel, and no step of another thread changes it.
-/

set_option autoImplicit false

namespace BusDecode

namespace Pipeline

/-! ## Parts -/

/-- The threads of a pipeline. -/
inductive Part where
  | feeder (j : Nat)
  | decoder
  | collector
  deriving DecidableEq

/-- The links of a pipeline. -/
inductive Wire where
  | feed (j : Nat)
  | out
  deriving DecidableEq

def Part.Within (count : Nat) : Part → Prop
  | feeder j => j < count
  | _ => True

def Wire.Within (count : Nat) : Wire → Prop
  | feed j => j < count
  | out => True

variable {g : Graph} {node : Node} {type : ItemType} {inputs : List (List type.Carrier)}
  (p : Pipeline g node type inputs)

def position : Part → Nat
  | .feeder j => p.feeder j
  | .decoder => p.decoder
  | .collector => p.collector

def link : Wire → Nat
  | .feed j => p.feedLink j
  | .out => p.outLink

variable {p}

theorem position_inj {a b : Part} (ha : a.Within inputs.length) (hb : b.Within inputs.length)
    (h : p.position a = p.position b) : a = b := by
  cases a with
  | feeder j =>
    cases b with
    | feeder k => exact congrArg _ (p.feeder_inj ha hb h)
    | decoder => exact absurd h.symm (p.decoder_ne_feeder ha)
    | collector => exact absurd h.symm (p.collector_ne_feeder ha)
  | decoder =>
    cases b with
    | feeder k => exact absurd h (p.decoder_ne_feeder hb)
    | decoder => rfl
    | collector => exact absurd h p.decoder_ne_collector
  | collector =>
    cases b with
    | feeder k => exact absurd h (p.collector_ne_feeder hb)
    | decoder => exact absurd h.symm p.decoder_ne_collector
    | collector => rfl

theorem link_inj {v w : Wire} (hv : v.Within inputs.length) (hw : w.Within inputs.length)
    (h : p.link v = p.link w) : v = w := by
  cases v with
  | feed j =>
    cases w with
    | feed k => exact congrArg _ (p.feedLink_inj hv hw h)
    | out => exact absurd h.symm (p.outLink_ne_feedLink hv)
  | out =>
    cases w with
    | feed k => exact absurd h (p.outLink_ne_feedLink hw)
    | out => rfl

theorem part_cases {i : Nat} (h : i < g.nodes.length) :
    ∃ a : Part, a.Within inputs.length ∧ i = p.position a := by
  obtain rfl | rfl | ⟨j, hj, rfl⟩ := p.node_cases h
  · exact ⟨.decoder, trivial, rfl⟩
  · exact ⟨.collector, trivial, rfl⟩
  · exact ⟨.feeder j, hj, rfl⟩

variable (p) in
/-- The threads and the channels of a pipeline at work. -/
structure Located (n : Network) (threads : Part → Thread) (channels : Wire → Channel Item) :
    Prop where
  length : n.threads.length = g.nodes.length
  threads : ∀ a : Part, a.Within inputs.length → n.threads[p.position a]? = some (threads a)
  channels : ∀ w : Wire, w.Within inputs.length → n.channel? (p.link w) = some (channels w)

/-- Every thread is one of the parts. -/
theorem Located.thread_cases {n : Network} {threads : Part → Thread}
    {channels : Wire → Channel Item} (h : p.Located n threads channels) {i : Nat} {t : Thread}
    (ht : n.threads[i]? = some t) :
    ∃ a : Part, a.Within inputs.length ∧ i = p.position a ∧ t = threads a := by
  have hlt : i < g.nodes.length := h.length ▸ (List.getElem?_eq_some_iff.1 ht).1
  obtain ⟨a, ha, rfl⟩ := part_cases (p := p) hlt
  exact ⟨a, ha, rfl, Option.some.inj (ht.symm.trans (h.threads a ha))⟩

/-- One thread and one channel change; the others stay. -/
theorem Located.update {n : Network} {threads : Part → Thread} {channels : Wire → Channel Item}
    (h : p.Located n threads channels) {a : Part} (ha : a.Within inputs.length) {w : Wire}
    (hw : w.Within inputs.length) (t : Thread) (f : Channel Item → Channel Item)
    (told : List (String × Option String)) :
    p.Located (n.update (p.position a) t (p.link w) f told) (Function.update threads a t)
      (Function.update channels w (f (channels w))) where
  length := Network.length_update.trans h.length
  threads b hb := by
    by_cases hab : b = a
    · subst hab
      rw [Function.update_self]
      exact Network.thread_update (h.threads b hb)
    · rw [Function.update_of_ne hab,
        Network.thread_update_ne fun heq => hab (position_inj hb ha heq.symm)]
      exact h.threads b hb
  channels v hv := by
    by_cases hwv : v = w
    · subst hwv
      rw [Function.update_self]
      exact Network.channel?_update (h.channels v hv)
    · rw [Function.update_of_ne hwv,
        Network.channel?_update_ne fun heq => hwv (link_inj hv hw heq.symm)]
      exact h.channels v hv

/-! ## The invariant -/

variable (p) in
/-- The reports there can be: those of success, those of the decoder, and those of replays that
nobody received from any more. -/
def Admits (reason : Halt) (report : String × Option String) : Prop :=
  report.2 = none ∨ report.1 = node.name ∧ report.2 ∈ Thread.lastWords reason ∨
    ∃ j < inputs.length, report.1 = p.replayName j ∧
      report.2 ∈ Thread.lastWords (.sendFailed Halt.closedChannel)

variable (p) in
/-- Every thread of the pipeline is what its role says, and the two ends of each link agree on what
is still due.  Each thread has a bound for the steps it still takes. -/
structure Standing (D : Decoding type) (reason : Halt) (items : List Annotation) (n : Network)
    (threads : Part → Thread) (channels : Wire → Channel Item) (due : Nat → List type.Carrier)
    (dueOut : List Annotation) (left : Part → Nat) : Prop where
  located : p.Located n threads channels
  feeders : ∀ j < inputs.length, FeederAt type (p.feedLink j) (threads (.feeder j))
    (channels (.feed j)) (due j) (left (.feeder j)) (p.replayName j)
  decoder : DecoderAt D p.feedLink p.outLink reason (threads .decoder) (channels .out)
    (channels ∘ .feed) due dueOut n.reports (left .decoder) node.name
  collector : CollectorAt p.outLink items (threads .collector) (channels .out) dueOut
    (left .collector) p.collectorKey
  reports : ∀ report ∈ n.reports, p.Admits reason report

variable (inputs) in
/-- The steps that the threads of a pipeline take together. -/
def total (left : Part → Nat) : Nat :=
  ∑ j ∈ Finset.range inputs.length, left (.feeder j) + left .decoder + left .collector

theorem total_update_lt {left : Part → Nat} {a : Part} {fewer : Nat}
    (ha : a.Within inputs.length) (hfewer : fewer < left a) :
    total inputs (Function.update left a fewer) < total inputs left := by
  have hle : ∀ b, Function.update left a fewer b ≤ left b := by
    intro b
    by_cases hab : b = a
    · rw [hab, Function.update_self]
      exact hfewer.le
    · rw [Function.update_of_ne hab]
  have hself : Function.update left a fewer a < left a := by rwa [Function.update_self]
  have hfeeders : ∑ j ∈ Finset.range inputs.length, Function.update left a fewer (.feeder j) ≤
      ∑ j ∈ Finset.range inputs.length, left (.feeder j) :=
    Finset.sum_le_sum fun j _ => hle _
  have hdecoder := hle .decoder
  have hcollector := hle .collector
  unfold total
  cases a with
  | feeder j =>
    have hless : ∑ k ∈ Finset.range inputs.length,
        Function.update left (.feeder j) fewer (.feeder k) <
          ∑ k ∈ Finset.range inputs.length, left (.feeder k) :=
      Finset.sum_lt_sum (fun k _ => hle _) ⟨j, Finset.mem_range.2 ha, hself⟩
    omega
  | decoder => omega
  | collector => omega

namespace Standing

variable {D : Decoding type} {reason : Halt} {items : List Annotation} {n n' : Network}
  {threads : Part → Thread} {channels : Wire → Channel Item} {due : Nat → List type.Carrier}
  {dueOut : List Annotation} {left : Part → Nat} {t : Thread} {c : Channel Item}
  {told : List (String × Option String)} {fewer : Nat}

theorem update_feed (channels : Wire → Channel Item) (j : Nat) (c : Channel Item) :
    Function.update channels (.feed j) c ∘ Wire.feed =
      Function.update (channels ∘ Wire.feed) j c :=
  Function.update_comp_eq_of_injective channels (fun _ _ => Wire.feed.inj) j c

section Step

variable (h : p.Standing D reason items n threads channels due dueOut left)
include h

theorem admits_append (hadmits : ∀ report ∈ told, p.Admits reason report) :
    ∀ report ∈ n.reports ++ told, p.Admits reason report :=
  fun report hreport => (List.mem_append.1 hreport).elim (h.reports report) (hadmits report)

theorem feeder_step {j : Nat} (hj : j < inputs.length)
    (hat : n.AtSender (p.feeder j) t (p.feedLink j) (channels (.feed j)) c told n')
    (hfeeder : FeederAt type (p.feedLink j) t c (due j) fewer (p.replayName j))
    (hadmits : ∀ report ∈ told, p.Admits reason report) :
    p.Standing D reason items n' (Function.update threads (.feeder j) t)
      (Function.update channels (.feed j) c) due dueOut
      (Function.update left (.feeder j) fewer) := by
  have hdecoder := h.decoder.feed hat
  obtain ⟨f, rfl, rfl⟩ := hat.update
  refine ⟨h.located.update (a := .feeder j) hj (w := .feed j) hj t f told, fun k hk => ?_, ?_,
    h.collector, h.admits_append hadmits⟩
  · by_cases hkj : k = j
    · subst hkj
      rwa [Function.update_self, Function.update_self, Function.update_self]
    · have hpart : Part.feeder k ≠ Part.feeder j := by simpa using hkj
      have hwire : Wire.feed k ≠ Wire.feed j := by simpa using hkj
      rw [Function.update_of_ne hpart, Function.update_of_ne hwire, Function.update_of_ne hpart]
      exact h.feeders k hk
  · rw [update_feed]
    exact hdecoder

theorem decoder_send
    (hat : n.AtSender p.decoder t p.outLink (channels .out) c told n')
    (hdecoder : DecoderAt D p.feedLink p.outLink reason t c (channels ∘ .feed) due dueOut
      n'.reports fewer node.name)
    (hadmits : ∀ report ∈ told, p.Admits reason report) :
    p.Standing D reason items n' (Function.update threads .decoder t)
      (Function.update channels .out c) due dueOut (Function.update left .decoder fewer) := by
  have hcollector := h.collector.feed hat
  obtain ⟨f, rfl, rfl⟩ := hat.update
  exact ⟨h.located.update (a := .decoder) trivial (w := .out) trivial t f told, h.feeders, hdecoder,
    hcollector, h.admits_append hadmits⟩

theorem decoder_receive {j : Nat} (hj : j < inputs.length) {due' : List type.Carrier}
    (hat : n.AtReceiver type p.decoder t (p.feedLink j) (channels (.feed j)) c (due j) due' [] n')
    (hdecoder : DecoderAt D p.feedLink p.outLink reason t (channels .out)
      (Function.update (channels ∘ .feed) j c) (Function.update due j due') dueOut n'.reports fewer
      node.name) :
    p.Standing D reason items n' (Function.update threads .decoder t)
      (Function.update channels (.feed j) c) (Function.update due j due') dueOut
      (Function.update left .decoder fewer) := by
  have hfeeder := (h.feeders j hj).receive hat
  obtain ⟨f, rfl, rfl⟩ := hat.update
  refine ⟨h.located.update (a := .decoder) trivial (w := .feed j) hj t f [], fun k hk => ?_, ?_,
    h.collector, h.admits_append nofun⟩
  · by_cases hkj : k = j
    · subst hkj
      rwa [Function.update_self, Function.update_self]
    · have hwire : Wire.feed k ≠ Wire.feed j := by simpa using hkj
      rw [Function.update_of_ne hwire, Function.update_of_ne hkj]
      exact h.feeders k hk
  · rw [update_feed]
    exact hdecoder

theorem collector_receive {dueOut' : List Annotation}
    (hat : n.AtReceiver .annotations p.collector t p.outLink (channels .out) c dueOut dueOut' told
      n')
    (hcollector : CollectorAt p.outLink items t c dueOut' fewer p.collectorKey)
    (hadmits : ∀ report ∈ told, p.Admits reason report) :
    p.Standing D reason items n' (Function.update threads .collector t)
      (Function.update channels .out c) due dueOut' (Function.update left .collector fewer) := by
  have hdecoder := h.decoder.receive hat
  obtain ⟨f, rfl, rfl⟩ := hat.update
  exact ⟨h.located.update (a := .collector) trivial (w := .out) trivial t f told, h.feeders,
    hdecoder, hcollector, h.admits_append hadmits⟩

/-- **Every step keeps a pipeline standing**, with fewer steps still to take. -/
theorem step (hcount : inputs.length = D.count) (hleads : n.Leads n') :
    ∃ threads channels due dueOut left', total inputs left' < total inputs left ∧
      p.Standing D reason items n' threads channels due dueOut left' := by
  obtain ⟨i, hi⟩ := hleads
  obtain ⟨t, ht, hstep⟩ := Network.step_cases hi
  obtain ⟨a, ha, rfl, rfl⟩ := h.located.thread_cases ht
  cases a with
  | feeder j =>
    obtain ⟨t', c', told, fewer, hfewer, hat, hfeeder, why, hwhy, hsaid⟩ :=
      (h.feeders j ha).step (h.located.channels (.feed j) ha) hstep
    refine ⟨_, _, _, _, _, total_update_lt ha hfewer,
      h.feeder_step ha hat hfeeder fun report hreport => ?_⟩
    obtain ⟨hname, hwords⟩ := hsaid report hreport
    obtain rfl | rfl := hwhy
    · exact .inl (List.mem_singleton.1 hwords)
    · exact .inr (.inr ⟨j, ha, hname, hwords⟩)
  | decoder =>
    have hfed : ∀ j < D.count, Fed type ((channels ∘ .feed) j) (due j) :=
      fun j hj => (h.feeders j (hcount ▸ hj)).fed
    have hchannels : ∀ j < D.count, n.channel? (p.feedLink j) = some ((channels ∘ .feed) j) :=
      fun j hj => h.located.channels (.feed j) (show j < inputs.length from hcount ▸ hj)
    have hlinks : ∀ j < D.count, ∀ k < D.count, p.feedLink j = p.feedLink k → j = k :=
      fun j hj k hk => p.feedLink_inj (hcount ▸ hj) (hcount ▸ hk)
    obtain ⟨t', c', told, fewer, hfewer, hat, hsaid, hdecoder⟩ |
      ⟨j, hj, t', c', due', fewer, hfewer, hat, hdecoder⟩ :=
      h.decoder.step hlinks hfed hchannels (h.located.channels .out trivial) h.collector.heard hstep
    · exact ⟨_, _, _, _, _, total_update_lt ha hfewer,
        h.decoder_send hat hdecoder fun report hreport => .inr (.inl (hsaid report hreport))⟩
    · exact ⟨_, _, _, _, _, total_update_lt ha hfewer,
        h.decoder_receive (hcount ▸ hj) hat hdecoder⟩
  | collector =>
    obtain ⟨t', c', due', told, fewer, hfewer, hat, hcollector, hsaid⟩ :=
      h.collector.step h.decoder.fed (h.located.channels .out trivial) hstep
    exact ⟨_, _, _, _, _, total_update_lt ha hfewer,
      h.collector_receive hat hcollector fun report hreport =>
        .inl (List.mem_singleton.1 (hsaid report hreport).2)⟩

end Step

end Standing

/-! ## The beginning -/

theorem launch_eq (key : String) (node : Node) (feeds : List (Option Nat)) (inlets : List Inlet)
    (fanouts : List (Option Fanout)) :
    ∃ t : Thread, Thread.launch key node feeds inlets fanouts = t.resume (node, inlets) 0 ∧
      t.name = node.name ∧ t.key = key ∧ t.feeds = feeds ∧ t.fanouts = fanouts ∧
      t.stage = .working ∧ t.taken = false :=
  ⟨Thread.launch key node feeds inlets fanouts, rfl, rfl, rfl, rfl, rfl, rfl, rfl⟩

theorem supplies_empty (type : ItemType) (xs : List type.Carrier) : Supplies type {} xs xs :=
  fun _ => ⟨[], rfl, rfl⟩

theorem feeder_begins (j : Nat) (xs : List type.Carrier) (key : String) :
    FeederAt type (p.feedLink j) (p.feederThread j xs key) {} xs (3 * xs.length + 3)
      (p.replayName j) := by
  obtain ⟨t, ht, hname, -, hfeeds, hfanouts, hstage, htaken⟩ := launch_eq key
    (.replay (p.replayName j) type xs 0) [] [] [some ⟨type, [p.feedLink j]⟩]
  rw [feederThread, ht]
  exact ⟨hfeeds, hfanouts, hname, rfl, .inl ⟨_, xs, 0, rfl, Thread.call_resume hfanouts _ _,
    FeederAt.sending hfanouts hstage htaken rfl (supplies_empty type xs), le_rfl⟩⟩

section Decoder

variable {D : Decoding type} {m : D.Memory} {items : List Annotation} {reason : Halt}
  {final : D.Memory × List (List type.Carrier)} (hcount : inputs.length = D.count)
  (hyields : D.step.Yields (m, inputs) items reason final)
include hcount hyields

/-- Before anything has arrived, everything is still due. -/
theorem reads_begins : ∃ more, D.Reads (fun j => (inputs[j]?).getD []) items reason more
    (D.withLines m (List.replicate D.count {})) := by
  obtain ⟨calls, hlasts⟩ := hyields.exists_lasts
  let whole : List type.Carrier → Receiver type.Carrier := fun xs => Receiver.grow {} xs true
  have hgrown : Linewise (fun j => Receiver.Grown ⟨true, (inputs[j]?).getD [], true⟩)
      (List.replicate D.count {}) (inputs.map whole) := by
    refine ⟨by rw [List.length_replicate, List.length_map, hcount], fun j r r' hr hr' => ?_⟩
    obtain rfl : r = {} := List.eq_of_mem_replicate (List.mem_of_getElem? hr)
    rw [List.getElem?_map] at hr'
    obtain ⟨xs, hxs, rfl⟩ := Option.map_eq_some_iff.1 hr'
    rw [hxs]
    exact ⟨rfl, rfl, List.not_mem_nil, rfl, fun _ => rfl, nofun⟩
  refine ⟨_, m, List.length_replicate, hgrown, ?_, hyields, hlasts, le_rfl⟩
  rw [List.forall₂_map_left_iff]
  refine List.forall₂_same.2 fun xs _ => ⟨?_, .inr (.inr rfl)⟩
  have hcontents := Channel.itemsBeforeEnd_items xs []
  have hnil : Channel.itemsBeforeEnd ([] : List (Message type.Carrier)) = [] := rfl
  rwa [List.append_nil, hnil, List.append_nil] at hcontents

theorem decoder_begins (key : String) :
    ∃ left, DecoderAt D p.feedLink p.outLink reason (p.decoderThread D m key) {} (fun _ => {})
      (fun j => (inputs[j]?).getD []) items [] left (D.node m).name := by
  obtain ⟨more, hreads⟩ := reads_begins hcount hyields
  obtain ⟨xs, hitems, hxs⟩ := hreads.items_call
  obtain ⟨t, ht, hname, -, hfeeds, hfanouts, hstage, htaken⟩ := launch_eq key (D.node m)
    ((List.range D.count).map fun j => some (p.feedLink j))
    (List.replicate D.count (.connected type {})) [some ⟨.annotations, [p.outLink]⟩]
  have hstart : (D.node m, List.replicate D.count (Inlet.connected type {})) =
      D.withLines m (List.replicate D.count {}) :=
    congrArg (D.node m, ·) List.map_replicate.symm
  rw [decoderThread, ht, hstart]
  exact ⟨_, hfeeds, hfanouts, hname, D.kept m, .inl ⟨Thread.call_resume hfanouts _ _,
    fun _ _ => rfl, items, more, hreads,
    .resume (n := 0) hfanouts hstage htaken rfl hitems hxs (Nat.zero_le _)
      (supplies_empty .annotations items), le_rfl⟩⟩

end Decoder

theorem collector_begins (name : String) (items : List Annotation) :
    CollectorAt p.outLink items (p.collectorThread name) {} items (2 * items.length + 4)
      p.collectorKey :=
  ⟨rfl, rfl, rfl, .inl ⟨name, #[], [], true, true, [], rfl, rfl, rfl, rfl, rfl, rfl, nofun, le_rfl⟩⟩

/-- A pipeline stands when its work begins. -/
theorem standing_ofGraph {result : Except Halt Unit} {items : List Annotation}
    (h : Decodes node type inputs result items) :
    ∃ D : Decoding type, inputs.length = D.count ∧ ∃ threads channels due dueOut left,
      p.Standing D (Halt.ending result) items (Network.ofGraph g) threads channels due dueOut
        left := by
  obtain ⟨D, m, final, rfl, hcount, hyields⟩ := h.exists_yields
  let threads : Part → Thread := fun a =>
    ((Network.ofGraph g).threads[p.position a]?).getD (p.collectorThread "")
  have hfeeder : ∀ j xs, inputs[j]? = some xs → ∃ key,
      (Network.ofGraph g).threads[p.feeder j]? = some (threads (.feeder j)) ∧
      threads (.feeder j) = p.feederThread j xs key := by
    intro j xs hxs
    obtain ⟨key, hthread⟩ := p.thread_feeder hxs
    have heq : threads (.feeder j) = p.feederThread j xs key := by
      simp [threads, position, hthread]
    exact ⟨key, hthread.trans (congrArg some heq.symm), heq⟩
  obtain ⟨key, hdecoder⟩ := p.thread_decoder rfl hcount
  have hdecoder' : threads .decoder = p.decoderThread D m key := by
    simp [threads, position, hdecoder]
  obtain ⟨name, hcollector⟩ := p.thread_collector
  have hcollector' : threads .collector = p.collectorThread name := by
    simp [threads, position, hcollector]
  obtain ⟨leftDecoder, hdecodes⟩ := decoder_begins (p := p) hcount hyields key
  let left : Part → Nat
    | .feeder j => 3 * ((inputs[j]?).getD []).length + 3
    | .decoder => leftDecoder
    | .collector => 2 * items.length + 4
  refine ⟨D, hcount, threads, fun _ => {}, fun j => (inputs[j]?).getD [], items, left,
    ⟨?_, fun a ha => ?_, fun w hw => ?_⟩, fun j hj => ?_, ?_, ?_, nofun⟩
  · simp [Network.ofGraph]
  · cases a with
    | feeder j =>
      obtain ⟨_, hthread, -⟩ := hfeeder j _ (List.getElem?_eq_getElem ha)
      exact hthread
    | decoder => exact hdecoder.trans (congrArg some hdecoder'.symm)
    | collector => exact hcollector.trans (congrArg some hcollector'.symm)
  · cases w with
    | feed j =>
      obtain ⟨capacity, hfeed⟩ := p.feeds j hw
      exact Network.channel?_ofGraph hfeed
    | out =>
      obtain ⟨capacity, hout⟩ := p.collectors
      exact Network.channel?_ofGraph hout
  · obtain ⟨key, -, hthread⟩ := hfeeder j _ (List.getElem?_eq_getElem hj)
    rw [hthread]
    simp only [left, List.getElem?_eq_getElem hj]
    exact feeder_begins j _ key
  · rw [hdecoder']
    exact hdecodes
  · rw [hcollector']
    exact collector_begins name items

/-- **A pipeline stands in every state it can reach.** -/
theorem standing_reaches {result : Except Halt Unit} {items : List Annotation}
    (p : Pipeline g node type inputs) (h : Decodes node type inputs result items) {n : Network}
    (hreaches : (Network.ofGraph g).Reaches n) :
    ∃ (D : Decoding type) (threads : Part → Thread) (channels : Wire → Channel Item)
      (due : Nat → List type.Carrier) (dueOut : List Annotation) (left : Part → Nat),
      p.Standing D (Halt.ending result) items n threads channels due dueOut left := by
  obtain ⟨D, hcount, hbegins⟩ := standing_ofGraph (p := p) h
  refine ⟨D, ?_⟩
  induction hreaches with
  | refl => exact hbegins
  | tail _ hleads ih =>
    obtain ⟨threads, channels, due, dueOut, left, hstanding⟩ := ih
    obtain ⟨threads, channels, due, dueOut, left, -, hstanding⟩ := hstanding.step hcount hleads
    exact ⟨threads, channels, due, dueOut, left, hstanding⟩

/-! ## What is collected -/

/-- The one element of a list that a function has a value for. -/
theorem filterMap_eq_singleton {α β : Type} {f : α → Option β} {l : List α} {k : Nat} {a : α}
    {b : β} (ha : l[k]? = some a) (hb : f a = some b)
    (hothers : ∀ (i : Nat) x, l[i]? = some x → i ≠ k → f x = none) : l.filterMap f = [b] := by
  induction l generalizing k with
  | nil => cases ha
  | cons x rest ih =>
    cases k with
    | zero =>
      obtain rfl : x = a := Option.some.inj ha
      rw [List.filterMap_cons_some hb, List.filterMap_eq_nil_iff.2]
      intro y hy
      obtain ⟨i, hi⟩ := List.mem_iff_getElem?.1 hy
      exact hothers (i + 1) y hi (Nat.succ_ne_zero i)
    | succ k =>
      rw [List.filterMap_cons_none (hothers 0 x rfl (Nat.succ_ne_zero k).symm)]
      exact ih ha fun i y hy hik => hothers (i + 1) y hy (by simpa using hik)

/-- What a network that stands has collected. -/
theorem Standing.collected {D : Decoding type} {reason : Halt} {items : List Annotation}
    {n : Network} {threads : Part → Thread} {channels : Wire → Channel Item}
    {due : Nat → List type.Carrier} {dueOut : List Annotation} {left : Part → Nat}
    (h : p.Standing D reason items n threads channels due dueOut left) :
    ∃ got : List Annotation, n.collected = [(p.collectorKey, got.map (Item.mk .annotations))] ∧
      got <+: items ∧ (n.HasEnded → got = items) := by
  obtain ⟨got, hkept, hbegins, hall⟩ := h.collector.collected
  have hthread := h.located.threads .collector trivial
  refine ⟨got, filterMap_eq_singleton hthread ?_ fun i t ht hi => ?_, hbegins,
    fun hended => hall (hended _ (List.mem_of_getElem? hthread)).1⟩
  · rw [hkept, h.collector.key]
    rfl
  · obtain ⟨a, ha, rfl, rfl⟩ := h.located.thread_cases ht
    cases a with
    | feeder j => rw [(h.feeders j ha).kept, Option.map_none]
    | decoder => rw [h.decoder.kept, Option.map_none]
    | collector => exact absurd rfl hi

/-- **Pipelined decoding is direct decoding, under every schedule.**  In every state that a pipeline
can reach, by steps of its threads in any order, its collector has kept the first of the annotations
of its decoder run directly on the same input; and all of them, in a state in which every thread has
ended, also if the decoder fails. -/
theorem collected_decodes {result : Except Halt Unit} {items : List Annotation}
    (p : Pipeline g node type inputs) (hdirect : Decodes node type inputs result items)
    {registry : Registry} {start n : Network} (hbuild : g.build registry = .ok start)
    (hreaches : start.Reaches n) :
    ∃ got : List Annotation, n.collected = [(p.collectorKey, got.map (Item.mk .annotations))] ∧
      got <+: items ∧ (n.HasEnded → got = items) := by
  obtain rfl := Network.ofGraph_of_build hbuild
  obtain ⟨D, threads, channels, due, dueOut, left, hstanding⟩ :=
    p.standing_reaches hdirect hreaches
  exact hstanding.collected

/-- Two writes of a display driver, through links of one place and of none. -/
theorem collected_decodes_two_writes :
    let packets : List Spi.Packet :=
      [.chipSelect true 10 10, .data ⟨0x0C, 12, 20⟩ none, .data ⟨0x01, 22, 28⟩ none,
        .chipSelect false 30 30, .chipSelect true 40 40, .data ⟨0x02, 42, 50⟩ none,
        .chipSelect false 60 60]
    let g : Graph :=
      { nodes := [("log", .collector "sink" #[]), ("source", .replay "tape" .packets packets 0),
          ("display", .max7219 {})]
        connections := [⟨⟨1, 0⟩, ⟨2, 0⟩, .packets, 1⟩, ⟨⟨2, 0⟩, ⟨0, 0⟩, .annotations, 0⟩] }
    let start := Network.ofGraph g
    Nonempty (Pipeline g (.max7219 {}) .packets [packets]) ∧ g.build .standard = .ok start ∧
      start.Reaches (start.run 100) ∧ (start.run 100).HasEnded ∧
      (start.run 100).collected = [("log", [⟨.annotations, .field "register" 12 28 "Shutdown: off"⟩,
        ⟨.annotations, .warning 40 60 "Short write"⟩])] := by
  intro packets g start
  let p : Pipeline g (.max7219 {}) .packets [packets] :=
    { feeder := fun _ => 1
      decoder := 2
      collector := 0
      replayName := fun _ => "tape"
      collectorKey := "log"
      feedLink := fun _ => 0
      outLink := 1
      nodes := by decide
      connections := by decide
      replays := by
        rintro (_ | _) _ ⟨⟩
        exact ⟨_, rfl⟩
      decodes := ⟨_, rfl⟩
      collects := ⟨_, rfl⟩
      feeds := by
        rintro (_ | j) hj
        · exact ⟨_, rfl⟩
        · exact absurd hj (by simp)
      collectors := ⟨_, rfl⟩ }
  have hreaches : start.Reaches (start.run 100) := start.reaches_run 100
  have hended : (start.run 100).HasEnded := by
    unfold Network.HasEnded
    decide +kernel
  have hbuild : g.build .standard = .ok start := rfl
  obtain ⟨got, hcollected, -, hall⟩ :=
    p.collected_decodes (.max7219 {} packets) hbuild hreaches
  have hitems : ((Max7219.Decoder.decode.run (({} : Max7219.Decoder), packets)).play
      (#[] : Array Annotation)).sink.toList =
        [.field "register" 12 28 "Shutdown: off", .warning 40 60 "Short write"] := by
    decide +kernel
  rw [hall hended, hitems] at hcollected
  exact ⟨⟨p⟩, hbuild, hreaches, hended, hcollected⟩

end Pipeline

end BusDecode
