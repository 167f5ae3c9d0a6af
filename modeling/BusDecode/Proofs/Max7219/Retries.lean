import BusDecode.Proofs.Max7219
import BusDecode.Proofs.Sinks

/-!
# Packets that are fed again

A word counts only once its annotation is out, and what a release tells does not depend on whether
chip select was still asserted.  So a packet whose annotation has been refused is as good as not
fed, in whatever state the decoder was (`repeatable_feed`), and a caller may feed it again.
-/

set_option autoImplicit false

namespace BusDecode

namespace Max7219

namespace Decoder

/-- A word leaves the decoder as it was until its annotation has been taken. -/
theorem repeatable_data (w : Spi.Word) : Repeatable (data w) := by
  intro d
  have hrun : (data w).run d = (Script.onlyIf d.selected (latchOrWrite w >>= fun _ =>
      Script.modify fun d => { d with words := d.words + 1 })).run d := rfl
  unfold Script.onlyIf at hrun
  cases hselected : d.selected with
  | false =>
    rw [hselected] at hrun
    exact ⟨d, [], .inl hrun⟩
  | true =>
    unfold latchOrWrite at hrun
    rw [if_pos hselected, bind_assoc, Script.run_bind_ok (Script.run_read _ _),
      Script.after_nil] at hrun
    match hwords : d.words, haddress : d.address with
    | 0, _ =>
      rw [hwords] at hrun
      exact ⟨_, [], .inl hrun⟩
    | 1, some address =>
      rw [hwords, haddress] at hrun
      exact ⟨_, [], .inr ⟨_, d, hrun, rfl⟩⟩
    | 1, none =>
      rw [hwords, haddress] at hrun
      exact ⟨_, [], .inl hrun⟩
    | _ + 2, _ =>
      rw [hwords] at hrun
      exact ⟨_, [], .inl hrun⟩

/-- Of a release that has been refused nothing is left but that chip select is released, which no
release asks for. -/
theorem repeatable_chipSelect (active : Bool) (start stop : Nat) :
    Repeatable (chipSelect active start stop) := by
  intro d
  cases active with
  | true => exact ⟨_, [], .inl rfl⟩
  | false =>
    have hrun : (chipSelect false start stop).run d =
        (checkLength stop).run { d with selected := false } := rfl
    unfold checkLength at hrun
    rw [Script.run_bind_ok (Script.run_read _ _), Script.after_nil] at hrun
    dsimp only at hrun
    cases hfault : lengthFault d.words with
    | none =>
      rw [hfault] at hrun
      exact ⟨_, [], .inl hrun⟩
    | some fault =>
      rw [hfault] at hrun
      exact ⟨_, [_], .inr ⟨_, { d with selected := false }, hrun, rfl⟩⟩

theorem repeatable_feed (p : Spi.Packet) : Repeatable (feed p) := by
  match p with
  | .data mosi _ => exact repeatable_data mosi
  | .chipSelect active start stop => exact repeatable_chipSelect active start stop
  | .transfer _ _ => exact fun d => ⟨d, [], .inl rfl⟩

end Decoder

/-- **A packet that has been refused can be fed again.**  In whatever state a decoder is, and for
whatever reason a sink refuses the annotation of a packet: to feed the packet again to a sink that
takes everything is the same as to have fed it to such a sink at once, and it hands on just the
annotation that was refused.  So a caller that feeds again what has failed, until it does not,
leaves the sink with the annotations of a run without refusals and the decoder as after such a run;
and it gets through unless the sink refuses all offers from some number on. -/
theorem feed_retried :
    (∀ {κ : Type} [Sink κ Annotation] (d : Decoder) (p : Spi.Packet) (sink : κ) (e : Halt),
      let once := ((Decoder.feed p).run d).play sink
      let again := ((Decoder.feed p).run once.state).play (#[] : Array Annotation)
      once.result = .error e →
        again = ((Decoder.feed p).run d).play (#[] : Array Annotation) ∧ again.result = .ok () ∧
          ∃ a, again.sink = #[a] ∧ Sink.emit sink a = (.error e, once.sink)) ∧
    ∀ (name : String) (packets : List Spi.Packet) (sink : Picky Annotation),
      let run := (Decoder.decode.run (({ name } : Decoder), packets)).play (#[] : Array Annotation)
      (∀ d final, Retried Decoder.feed { name } sink packets d final →
        d = run.state.1 ∧ final.taken = sink.taken ++ run.sink.toList) ∧
      ((∀ n, ∃ m, n ≤ m ∧ sink.refusal m = none) →
        ∃ d final, Retried Decoder.feed { name } sink packets d final) := by
  refine ⟨?_, ?_⟩
  · intro κ _ d p sink e once again herror
    obtain ⟨hok, -⟩ | ⟨a, e', hitems, hrefused, herror', hback⟩ :=
      (Decoder.repeatable_feed p).play d sink
    · exact absurd (hok.symm.trans herror) nofun
    · obtain rfl : e' = e := Except.error.inj (herror'.symm.trans herror)
      have hagain : again = ((Decoder.feed p).run d).play (#[] : Array Annotation) :=
        congrArg (Trace.play · (#[] : Array Annotation)) hback
      rw [hagain, Trace.play_array]
      exact ⟨rfl, (Decoder.repeatable_feed p).result d, a, by simp [hitems], hrefused⟩
  · intro name packets sink run
    refine ⟨fun d final hretried => ?_, fun hsink =>
      Repeatable.retried Decoder.repeatable_feed packets { name } sink hsink⟩
    obtain ⟨_, s, xs, events, hplayed, hstate, htaken⟩ :=
      (hretried.drained Decoder.repeatable_feed).played (#[] : Array Annotation)
    have hrun : run = ⟨.ok (), s, #[] ++ xs.toArray, events⟩ := hplayed
    rw [hrun, htaken]
    exact ⟨hstate.symm, by simp⟩

/-- The value of a digit is refused once, and so is the warning of a third word. -/
theorem feed_retried_twice :
    let e : Halt := .sendFailed "full"
    let d : Decoder := { selected := true, words := 1, address := some ⟨3, 1, 9⟩ }
    let full : Limited (Array Annotation) := ⟨#[], e, some 0⟩
    let once := ((Decoder.feed (.data ⟨0x7E, 9, 17⟩ none)).run d).play full
    let sink : Picky Annotation := { refusal := fun n => if n % 2 = 0 then some e else none }
    once.result = .error e ∧
      (((Decoder.feed (.data ⟨0x7E, 9, 17⟩ none)).run once.state).play
        (#[] : Array Annotation)).sink = #[.field "digit" 1 17 "Digit 3: 7E"] ∧
      (∀ n, ∃ m, n ≤ m ∧ sink.refusal m = none) ∧
      ∃ d final, Retried Decoder.feed {} sink [.chipSelect true 0 0, .data ⟨3, 1, 9⟩ none,
          .data ⟨0x7E, 9, 17⟩ none, .data ⟨5, 17, 25⟩ none, .chipSelect false 26 27] d final ∧
        final.taken = [.field "digit" 1 17 "Digit 3: 7E", .warning 0 27 "Overlong write"] := by
  intro e d full once sink
  have herror : once.result = .error e := by decide
  have hsink : ∀ n, ∃ m, n ≤ m ∧ sink.refusal m = none := by
    intro n
    refine ⟨2 * n + 1, by omega, if_neg ?_⟩
    omega
  obtain ⟨hagain, hlist⟩ := feed_retried
  obtain ⟨hfirst, -⟩ := hagain d (.data ⟨0x7E, 9, 17⟩ none) full e herror
  obtain ⟨hsame, hthrough⟩ := hlist "max7219" [.chipSelect true 0 0, .data ⟨3, 1, 9⟩ none,
    .data ⟨0x7E, 9, 17⟩ none, .data ⟨5, 17, 25⟩ none, .chipSelect false 26 27] sink
  obtain ⟨d', final, hretried⟩ := hthrough hsink
  refine ⟨herror, ?_, hsink, d', final, hretried, ?_⟩
  · rw [hfirst]
    decide +kernel
  · rw [(hsame d' final hretried).2, (played_fresh "max7219" _).2]
    decide +kernel

end Max7219

end BusDecode
