import BusDecode.Proofs.Graph.Progress

/-!
# How a pipeline fails

A pipeline whose decoder cannot decode its input comes to its end under every schedule, with a
failure, and the decoder's own is among the reports (`Pipeline.verdict_undecodable`).  It need not
be the verdict, though: a replay that is still sending when the decoder lets go of its inlets fails
too, and its report may come first (`Pipeline.verdict_differs`).
-/

set_option autoImplicit false

namespace BusDecode

namespace Network

/-- The verdict is the first failure among the reports. -/
theorem verdict_of_failure {n : Network} {name reason : String}
    (h : (name, some reason) ∈ n.reports) :
    ∃ before after own why, n.reports = before ++ (own, some why) :: after ∧
      (∀ report ∈ before, report.2 = none) ∧ n.verdict = .error (.nodeFailed own why) := by
  cases hfirst : n.firstFailure? with
  | none =>
    have hnone := List.findSome?_eq_none_iff.1 hfirst _ h
    cases hnone
  | some error =>
    obtain ⟨before, report, after, hreports, herror, hbefore⟩ :=
      List.findSome?_eq_some_iff.1 hfirst
    obtain ⟨own, failure⟩ := report
    obtain ⟨why, rfl, rfl⟩ := Option.map_eq_some_iff.1 herror
    refine ⟨before, after, own, why, hreports, fun report hreport => ?_, ?_⟩
    · exact Option.map_eq_none_iff.1 (hbefore report hreport)
    · rw [verdict, hfirst]

end Network

namespace Pipeline

variable {g : Graph} {node : Node} {type : ItemType} {inputs : List (List type.Carrier)}

/-- In the end everything there is to report of the decoder has been reported. -/
theorem Standing.told {p : Pipeline g node type inputs} {D : Decoding type} {reason : Halt}
    {items : List Annotation} {n : Network} {threads : Part → Thread}
    {channels : Wire → Channel Item} {due : Nat → List type.Carrier} {dueOut : List Annotation}
    {left : Part → Nat} (h : p.Standing D reason items n threads channels due dueOut left)
    (hended : n.HasEnded) {failure : Option String}
    (hfailure : failure ∈ Thread.lastWords reason) : (node.name, failure) ∈ n.reports := by
  have hthread := h.located.threads .decoder trivial
  obtain ⟨hstage, htodo⟩ := hended _ (List.mem_of_getElem? hthread)
  obtain hworks | hleaves := h.decoder.stands
  · obtain ⟨_, _, _, hsending, _⟩ := hworks.progress
    exact absurd hsending.stage hstage
  · obtain hmem | hmem := hleaves.told failure hfailure
    · rw [htodo] at hmem
      cases hmem
    · rwa [h.decoder.name] at hmem

/-- **A decoder that cannot decode its input.**  Whatever the schedule, every thread comes to its
end.  The decoder has then reported that it cannot, and the pipeline has failed: with this failure,
or with that of a replay that reported before it that nobody received from it any more. -/
theorem verdict_undecodable {e : DecodeError} {items : List Annotation}
    (p : Pipeline g node type inputs)
    (hdirect : Decodes node type inputs (.error (.undecodable e)) items)
    {registry : Registry} {start : Network} (hbuild : g.build registry = .ok start) :
    start.Inevitably Network.HasEnded ∧ ∀ n, start.Reaches n → n.HasEnded →
      (node.name, some (Halt.undecodable e).message) ∈ n.reports ∧
      ∃ before after own why, n.reports = before ++ (own, some why) :: after ∧
        (∀ report ∈ before, report.2 = none) ∧ n.verdict = .error (.nodeFailed own why) ∧
        (own = node.name ∧ why = (Halt.undecodable e).message ∨
          ∃ j < inputs.length, own = p.replayName j ∧
            why = (Halt.sendFailed Halt.closedChannel).message) := by
  refine ⟨p.inevitably_hasEnded hdirect nofun hbuild, fun n hreaches hended => ?_⟩
  obtain rfl := Network.ofGraph_of_build hbuild
  obtain ⟨D, threads, channels, due, dueOut, left, hstanding⟩ :=
    p.standing_reaches hdirect hreaches
  have hfailed : (node.name, some (Halt.undecodable e).message) ∈ n.reports :=
    hstanding.told hended List.mem_cons_self
  obtain ⟨before, after, own, why, hreports, hbefore, hverdict⟩ :=
    Network.verdict_of_failure hfailed
  refine ⟨hfailed, before, after, own, why, hreports, hbefore, hverdict, ?_⟩
  have hmem : (own, some why) ∈ n.reports :=
    hreports ▸ List.mem_append_right _ List.mem_cons_self
  obtain hnone | ⟨hname, hwhy⟩ | ⟨j, hj, hname, hwhy⟩ := hstanding.reports _ hmem
  · cases hnone
  · exact .inl ⟨hname, Option.some.inj (List.mem_singleton.1 hwhy)⟩
  · exact .inr ⟨j, hj, hname, Option.some.inj (List.mem_singleton.1 hwhy)⟩

/-! ## Who reports first -/

/-- Samples for a decoder that has no sample rate. -/
def untimed (samples : List Sample) (capacity : Nat) : Graph where
  nodes := [("source", .replay "tape" .samples samples 0), ("line", .updi {}),
    ("log", .collector "sink" #[])]
  connections := [⟨⟨0, 0⟩, ⟨1, 0⟩, .samples, capacity⟩, ⟨⟨1, 0⟩, ⟨2, 0⟩, .annotations, 1⟩]

def untimedPipeline (samples : List Sample) (capacity : Nat) :
    Pipeline (untimed samples capacity) (.updi {}) .samples [samples] where
  feeder _ := 0
  decoder := 1
  collector := 2
  replayName _ := "tape"
  collectorKey := "log"
  feedLink _ := 0
  outLink := 1
  nodes := show [1, 2, 0].Perm [0, 1, 2] by decide
  connections := show [1, 0].Perm [0, 1] by decide
  replays := by
    rintro (_ | _) _ ⟨⟩
    exact ⟨_, rfl⟩
  decodes := ⟨_, rfl⟩
  collects := ⟨_, rfl⟩
  feeds := by
    rintro (_ | j) hj
    · exact ⟨_, rfl⟩
    · exact absurd hj (by simp)
  collectors := ⟨_, rfl⟩

/-- With room for both samples the replay can be done before the decoder fails. -/
theorem verdict_undecodable_untimed :
    let g := untimed [⟨0, true⟩, ⟨7, false⟩] 2
    let start := Network.ofGraph g
    g.build .standard = .ok start ∧ start.Inevitably Network.HasEnded ∧
      start.Reaches (start.run 100) ∧ (start.run 100).HasEnded ∧
      (start.run 100).verdict =
        .error (.nodeFailed "avr_updi" "Decode error: Cannot decode without samplerate") := by
  intro g start
  have hbuild : g.build .standard = .ok start := rfl
  have hreaches : start.Reaches (start.run 100) := start.reaches_run 100
  have hended : (start.run 100).HasEnded := by
    unfold Network.HasEnded
    decide +kernel
  have hreports : (start.run 100).reports =
      [("tape", none), ("avr_updi", some "Decode error: Cannot decode without samplerate"),
        ("sink", none)] := by
    decide +kernel
  obtain ⟨hends, hall⟩ := (untimedPipeline _ 2).verdict_undecodable (.updi {} _) hbuild
  obtain ⟨-, before, after, own, why, hfirst, -, hverdict, -⟩ := hall _ hreaches hended
  have hmem : (own, some why) ∈ (start.run 100).reports :=
    hfirst ▸ List.mem_append_right _ List.mem_cons_self
  obtain ⟨rfl, rfl⟩ : own = "avr_updi" ∧
      why = "Decode error: Cannot decode without samplerate" := by
    simpa [hreports] using hmem
  exact ⟨hbuild, hends, hreaches, hended, hverdict⟩

/-- The verdict is not always the error of the decoder.  With room for one sample the replay is
still sending when the decoder fails, and reports first.  With nothing to send the failure is that
of the decoder, but worded as the reason it halts for and not as the error itself. -/
theorem verdict_differs :
    let samples : List Sample := [⟨0, true⟩, ⟨7, false⟩]
    let late := Network.ofGraph (untimed samples 1)
    let quiet := Network.ofGraph (untimed [] 1000)
    let direct := fun xs : List Sample =>
      (Updi.Decoder.decode {} xs (#[] : Array Annotation)).result
    (direct samples = .error (.undecodable .missingSampleRate) ∧
      late.Reaches (late.run 100) ∧ (late.run 100).HasEnded ∧
      (late.run 100).verdict =
        .error (.nodeFailed "tape" (Halt.sendFailed Halt.closedChannel).message)) ∧
    direct [] = .error (.undecodable .missingSampleRate) ∧
      quiet.Reaches (quiet.run 100) ∧ (quiet.run 100).HasEnded ∧
      (quiet.run 100).verdict =
        .error (.nodeFailed "avr_updi" (Halt.undecodable .missingSampleRate).message) ∧
      (Halt.undecodable .missingSampleRate).message ≠ DecodeError.missingSampleRate.message := by
  refine ⟨⟨rfl, Network.reaches_run _ _, ?_, ?_⟩, rfl, Network.reaches_run _ _, ?_, ?_, ?_⟩
  · unfold Network.HasEnded
    decide +kernel
  · decide +kernel
  · unfold Network.HasEnded
    decide +kernel
  · decide +kernel
  · decide

end Pipeline

end BusDecode
