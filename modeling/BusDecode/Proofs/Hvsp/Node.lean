import BusDecode.Proofs.Graph.Work
import BusDecode.Proofs.Hvsp.Likeness
import BusDecode.Proofs.Merger

/-!
# The node of four lines

A node that merges four lines and feeds what comes of it to its decoder annotates what the decoder
annotates on the pin vectors that the lines were split off (`works_lines`).  Call by call, the
merger skips the vectors that change none of the four lines; the others reach the decoder with the
same time and the same four levels, so it stays a twin of the one that takes every vector
(`Abreast.works`).
-/

set_option autoImplicit false

namespace BusDecode

namespace Hvsp

open PinVector

variable {d d' : Decoder} {m m' : Merger} {lines lines' : List (Receiver Sample)}
  {sender : Sender Annotation} {more : List Outlet} {w : PinVector} {told : List Event}

/-! ## One call -/

/-- The node with the receivers of its lines. -/
def nodeAt (d : Decoder) (m : Merger) (lines : List (Receiver Sample)) : Node.State :=
  (.hvsp d m, lines.map (Inlet.connected .samples))

theorem mapM_receiver? (lines : List (Receiver Sample)) :
    (lines.map (Inlet.connected .samples)).mapM (fun inlet => inlet.receiver? .samples) =
      some lines := by
  induction lines with
  | nil => rfl
  | cons r rest ih => simp [List.mapM_cons, ih]

section Call

variable (hfour : lines.length = 4)
include hfour

/-- A call is what becomes of the pin vector that the merger answers with. -/
theorem work_nodeAt {targets : List (Option ItemType)}
    (hwrites : Node.writes .annotations targets) :
    Node.work targets (nodeAt d m lines) =
      let (vector, m, lines, told) := m.next lines
      match vector with
      | .error e => ⟨.error e, nodeAt d m lines, told.map .note⟩
      | .ok v =>
        let t := (Decoder.feed v).run d
        (Node.annotating t (nodeAt · m lines) fun () =>
          if t.state.instructions = d.instructions then 0 else 1).after (told.map .note) := by
  have hlen : (lines.map (Inlet.connected .samples)).length ≤ 4 := by
    rw [List.length_map, hfour]
  change Node.workHvsp _ d m (lines.map (Inlet.connected .samples)) = _
  unfold Node.workHvsp
  rw [if_pos hwrites, List.take_of_length_le hlen, List.drop_of_length_le hlen, mapM_receiver?]
  simp only [List.append_nil]
  rfl

theorem workOn_feed (hlive : sender.IsLive) {e : Decoder}
    {effects : List (Effect Decoder Annotation)} (hnext : m.next lines = (.ok w, m', lines', told))
    (hfeed : (Decoder.feed w : Handling Halt Unit).run d = ⟨.ok (), e, effects⟩) :
    ∃ count events,
      Node.workOn (nodeAt d m lines).1 (nodeAt d m lines).2
          (.connected .annotations sender :: more) =
        ⟨.ok count, nodeAt e m' lines',
          .connected .annotations (sender.sent (effects.filterMap Effect.item?)) :: more,
          events⟩ := by
  let count := if e.instructions = d.instructions then 0 else 1
  obtain ⟨events, hplay⟩ := Node.play_annotating hlive ⟨.ok (), e, effects⟩ (nodeAt · m' lines')
    (fun () => count) told more
  refine ⟨count, events, ?_⟩
  change Trace.play (Node.work _ (nodeAt d m lines)) _ = _
  rw [work_nodeAt hfour (Node.writes_connected .annotations sender more), hnext]
  dsimp only
  rw [hfeed]
  exact hplay

theorem workOn_end (hnext : m.next lines = (.error .endOfStream, m', lines', told)) :
    ∃ events,
      Node.workOn (nodeAt d m lines).1 (nodeAt d m lines).2
          (.connected .annotations sender :: more) =
        ⟨.error .endOfStream, nodeAt d m' lines', .connected .annotations sender :: more,
          events⟩ := by
  refine ⟨told, ?_⟩
  change Trace.play (Node.work _ (nodeAt d m lines)) _ = _
  rw [work_nodeAt hfour (Node.writes_connected .annotations sender more), hnext]
  exact Trace.play_noted _ _ _ _

end Call

/-! ## All calls -/

/-- The node is as far as a decoder that took the vectors up to `held`, with `vs` still to come: its
own decoder is a twin, its merger holds the same four levels, and its lines have the rest. -/
structure Abreast (held : Option PinVector) (vs : List PinVector) (d d' : Decoder) (m : Merger)
    (lines : List (Receiver Sample)) : Prop where
  twin : ∃ kept, Decoder.Twin held kept d d' ∧
    ∀ line < 4, (kept.map fun u => u.pin line) = held.map fun u => u.pin line
  holds : m.Holds 4 held
  serves : List.Forall₂ Receiver.Serves lines (split 4 held vs)

namespace Abreast

variable {held : Option PinVector} {v : PinVector} {vs : List PinVector}

theorem length (h : Abreast held vs d d' m lines) : lines.length = 4 :=
  h.serves.length_eq.trans (by simp [split])

/-- A vector that changes none of the four lines takes no call. -/
theorem answers_still (h : Abreast held (v :: vs) d d' m lines)
    (hsame : ∀ line < 4, (held.map fun u => u.pin line) = some (v.pin line)) :
    Script.Answers (Decoder.feed v : Handling Halt Unit) d fun _ e xs =>
      Abreast (some v) vs e d' m lines ∧ xs = [] := by
  obtain ⟨⟨kept, htwin, hkept⟩, hholds, hserves⟩ := h
  obtain ⟨u, rfl, -⟩ := Option.map_eq_some_iff.1 (hsame sci (by decide))
  have hpin : ∀ line < 4, u.pin line = v.pin line :=
    fun line hline => Option.some.inj (hsame line hline)
  refine (Decoder.answers_feed_unchanged htwin hpin).mono ?_
  rintro _ e _ ⟨htwin', rfl⟩
  refine ⟨⟨⟨kept, htwin', fun line hline => (hkept line hline).trans (hsame line hline)⟩, ?_, ?_⟩,
    rfl⟩
  · rintro _ ⟨⟩ line hline
    exact (hholds u rfl line hline).trans (hpin line hline)
  · rwa [← split_still hpin]

/-- A vector that changes one of them takes a call, which sends what the decoder hands on. -/
theorem answers_call (h : Abreast held (v :: vs) d d' m lines) (hlater : ∀ w ∈ vs, v.time < w.time)
    (hchange : ∃ line < 4, (held.map fun u => u.pin line) ≠ some (v.pin line))
    (hlive : sender.IsLive) (more : List Outlet) :
    Script.Answers (Decoder.feed v : Handling Halt Unit) d fun _ e xs =>
      ∃ count e' m' lines' events, Abreast (some v) vs e e' m' lines' ∧
        Node.workOn (nodeAt d' m lines).1 (nodeAt d' m lines).2
            (.connected .annotations sender :: more) =
          ⟨.ok count, nodeAt e' m' lines', .connected .annotations (sender.sent xs) :: more,
            events⟩ := by
  have hfour := h.length
  obtain ⟨⟨kept, htwin, hkept⟩, hholds, hserves⟩ := h
  obtain ⟨w, lines', told, hnext, htime, hpin, hserves'⟩ :=
    Merger.next_split Receiver.alike_serves (by decide) hholds hserves hlater hchange
  refine (Decoder.answers_feed_twin htwin (hkept sci (by decide)) htime hpin).mono ?_
  intro _ e xs hfed
  obtain ⟨_, e', effects, hfeed, htwin', rfl⟩ := hfed.run
  obtain ⟨count, events, hwork⟩ := workOn_feed hfour hlive hnext hfeed
  refine ⟨count, e', ⟨w.pins⟩, lines', events, ⟨⟨some w, htwin', ?_⟩, ?_, hserves'⟩, hwork⟩
  · exact fun line hline => congrArg some (hpin line hline)
  · rintro _ ⟨⟩ line hline
    exact hpin line hline

/-- **The node keeps abreast** of its decoder: whatever the decoder hands on from here, the node
sends in the calls up to the end of its input. -/
theorem works (vs : List PinVector) (h : Abreast held vs d d' m lines)
    (hrise : vs.Pairwise fun u v => u.time < v.time) (hlive : sender.IsLive) (more : List Outlet) :
    Script.Answers (Script.drain Decoder.feed) (d, vs) fun _ t xs => ∃ pins m' lines',
      Node.Works (nodeAt d' m lines) (.connected .annotations sender :: more) .endOfStream
        (nodeAt { t.1 with pins := pins } m' lines')
        (.connected .annotations (sender.sent xs) :: more) := by
  induction vs generalizing held d d' m lines sender with
  | nil =>
    obtain ⟨kept, htwin, _⟩ := h.twin
    obtain ⟨lines', told, hnext⟩ := m.next_split_nil Receiver.alike_serves h.serves
    obtain ⟨events, hwork⟩ := workOn_end (d := d') h.length hnext
    refine .drain_nil ⟨kept.map PinVector.pins, m, lines', ?_⟩
    rw [Sender.sent_nil, ← htwin.same]
    exact .stop hwork
  | cons v vs ih =>
    obtain ⟨hlater, hrise'⟩ := List.pairwise_cons.1 hrise
    by_cases hchange : ∃ line < 4, (held.map fun u => u.pin line) ≠ some (v.pin line)
    · refine .drain_cons ((h.answers_call hlater hchange hlive more).mono ?_)
      rintro _ e xs ⟨count, e', m', lines', events, h', hwork⟩
      refine (ih h' hrise' (hlive.sent xs)).mono ?_
      rintro _ t ys ⟨pins, m'', lines'', hworks⟩
      rw [Sender.sent_sent] at hworks
      exact ⟨pins, m'', lines'', .again hwork hworks⟩
    · refine .drain_cons ((h.answers_still (by simpa using hchange)).mono ?_)
      rintro _ e _ ⟨h', rfl⟩
      exact ih h' hrise' hlive

end Abreast

/-- **The node of four lines agrees with its decoder.**  Split pin vectors with rising times into
the records of their first four lines, and let each come through a channel that ends.  Called until
it halts, the node halts at the end of its input; every live destination has been sent the
annotations of the decoder, in order; and its decoder is left as if it had taken the vectors itself,
but for the pins it remembers. -/
theorem works_lines (name : String) (positions : Nat) {vs : List PinVector}
    (hrise : vs.Pairwise fun u v => u.time < v.time) {channels : List (Channel Sample)}
    (hchannels : List.Forall₂ Channel.Delivers channels
      ((List.range 4).map fun line => lineOf line vs))
    {sender : Sender Annotation} (hlive : sender.IsLive) (more : List Outlet) :
    let d : Decoder := { name, config := ⟨positions⟩ }
    let direct := (Decoder.decode.run (d, vs)).play (#[] : Array Annotation)
    let start : Node.State := (.hvsp d {}, channels.map (Inlet.ofChannel .samples))
    let outlets : List Outlet := .connected .annotations sender :: more
    direct.result = .ok () ∧
      (∃ e final sent, Node.Works start outlets e final sent) ∧
      ∀ e final sent, Node.Works start outlets e final sent →
        e = .endOfStream ∧
        (∃ pins m inlets, final = (.hvsp { direct.state.1 with pins := pins } m, inlets)) ∧
        sent = .connected .annotations (sender.sent direct.sink.toList) :: more := by
  intro d direct start outlets
  let lines : List (Receiver Sample) := channels.map fun c => { channel := c }
  have hstart : start = nodeAt d {} lines := by
    simp only [start, nodeAt, lines, List.map_map]
    rfl
  have habreast : Abreast none vs d d {} lines :=
    { twin := ⟨none, ⟨rfl, rfl, rfl⟩, fun _ _ => rfl⟩
      holds := fun _ h => nomatch h
      serves := List.forall₂_map_left_iff.2 (hchannels.imp fun _ _ => Receiver.serves_channel) }
  obtain ⟨_, t, effects, hrun, pins, m, lines', hworks⟩ :=
    (habreast.works vs hrise hlive more).run
  have hdirect : direct = ⟨.ok (), t, #[] ++ (effects.filterMap Effect.item?).toArray,
      effects.filterMap Effect.event?⟩ := by
    change (Trace.play _ _) = _
    rw [Trace.play_array, Decoder.decode, hrun]
    rfl
  rw [← hstart] at hworks
  rw [hdirect]
  refine ⟨rfl, ⟨_, _, _, hworks⟩, fun e final sent h => ?_⟩
  obtain ⟨rfl, rfl, rfl⟩ := hworks.unique h
  exact ⟨rfl, ⟨pins, m, _, rfl⟩, by simp⟩

/-- Two lines end with a marker, two with their senders gone; of two destinations one is live; and
one of the vectors changes none of the four lines. -/
theorem works_lines_six :
    let vs : List PinVector := [⟨0, 0⟩, ⟨5, 1⟩, ⟨7, 0x11⟩, ⟨9, 0x18⟩, ⟨12, 0x11⟩, ⟨15, 0x14⟩]
    let channels : List (Channel Sample) :=
      [.ofItems (lineOf 0 vs) (some []), .ofItems (lineOf 1 vs) (some [⟨3, true⟩]),
        (Channel.ofItems (lineOf 2 vs) none).dropSender,
        (Channel.ofItems (lineOf 3 vs) none).dropSender]
    let sender : Sender Annotation := ⟨[{}, { hasReceiver := false }]⟩
    (vs.Pairwise fun u v => u.time < v.time) ∧
      List.Forall₂ Channel.Delivers channels ((List.range 4).map fun line => lineOf line vs) ∧
      sender.IsLive ∧
      ∃ final, Node.Works (.hvsp { config := ⟨11⟩ } {}, channels.map (Inlet.ofChannel .samples))
        [.connected .annotations sender] .endOfStream final
        [.connected .annotations ⟨[
          { queue := [.item ⟨.bit, "sdo-bits", 5, 12, ["1"]⟩,
              .item ⟨.bit, "sdi-bits", 9, 15, ["0"]⟩] },
          { hasReceiver := false }]⟩] := by
  intro vs channels sender
  have hrise : vs.Pairwise fun u v => u.time < v.time := by decide
  have hchannels : List.Forall₂ Channel.Delivers channels
      ((List.range 4).map fun line => lineOf line vs) :=
    .cons (Channel.delivers_marked _ _) (.cons (Channel.delivers_marked _ _)
      (.cons (Channel.delivers_dropped _) (.cons (Channel.delivers_dropped _) .nil)))
  have hlive : sender.IsLive := ⟨_, List.mem_cons_self, rfl⟩
  refine ⟨hrise, hchannels, hlive, ?_⟩
  obtain ⟨-, ⟨e, final, sent, hworks⟩, hall⟩ :=
    works_lines "avr_hvsp" 11 hrise hchannels hlive []
  obtain ⟨rfl, -, rfl⟩ := hall e final sent hworks
  have hitems : ((Decoder.decode.run (({ config := ⟨11⟩ } : Decoder), vs)).play
      (#[] : Array Annotation)).sink.toList =
        [⟨.bit, "sdo-bits", 5, 12, ["1"]⟩, ⟨.bit, "sdi-bits", 9, 15, ["0"]⟩] := by
    decide +kernel
  refine ⟨final, ?_⟩
  rw [hitems] at hworks
  exact hworks

end Hvsp

end BusDecode
