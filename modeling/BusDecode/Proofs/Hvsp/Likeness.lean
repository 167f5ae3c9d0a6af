import BusDecode.Proofs.Hvsp.Framing
import BusDecode.Proofs.Likeness

/-!
# Pin vectors that say the same

A decoder looks at the time and at four levels of a pin vector; of the pins as a whole it only
remembers which they were.  So two decoders that differ in nothing but these pins stay so, and hand
on the same annotations, when each takes a vector with the same time and the same four levels
(`answers_feed_twin`), and a vector that changes none of the four leaves nothing but its pins.
-/

set_option autoImplicit false

namespace BusDecode

namespace Hvsp

namespace Decoder

variable {ε : Type} {held kept : Option PinVector} {v w : PinVector} {d d' : Decoder}

/-! ## Twins -/

/-- A decoder that has taken a vector last, or none so far, and one that only differs from it in
remembering the pins of another. -/
structure Twin (held kept : Option PinVector) (d d' : Decoder) : Prop where
  pins : d.pins = held.map PinVector.pins
  clock : d.clock = held.map fun u => u.pin sci
  same : d' = { d with pins := kept.map PinVector.pins }

namespace Twin

theorem read {α : Type} {f : Decoder → α} (hf : ∀ d pins, f { d with pins := pins } = f d) :
    Script.Alike (Twin held kept) (Script.read f : Handling ε α) (Script.read f) := by
  refine .read ?_
  rintro d _ ⟨_, _, rfl⟩
  exact (hf d _).symm

theorem emit {f : Decoder → Annotation} (hf : ∀ d pins, f { d with pins := pins } = f d) :
    Script.Alike (Twin held kept) (Script.emit f : Handling ε Unit) (Script.emit f) := by
  refine .emit ?_
  rintro d _ ⟨_, _, rfl⟩
  exact (hf d _).symm

/-- A change of the other fields. -/
theorem modify {f : Decoder → Decoder} (hf : ∀ d, (f d).pins = d.pins ∧ (f d).clock = d.clock ∧
      ∀ pins, f { d with pins := pins } = { f d with pins := pins }) :
    Script.Alike (Twin held kept) (Script.modify f : Handling ε Unit) (Script.modify f) := by
  refine .modify ?_
  rintro d _ ⟨hp, hc, rfl⟩
  obtain ⟨hpins, hclock, hsame⟩ := hf d
  exact ⟨hpins.trans hp, hclock.trans hc, hsame _⟩

/-- One of two twins takes a vector that leaves the clock as it was. -/
theorem saw_left {u : PinVector} (h : Twin (some u) kept d d') (hv : v.pin sci = u.pin sci) :
    Twin (some v) kept (d.saw v) d' := by
  obtain ⟨_, hclock, rfl⟩ := h
  exact ⟨rfl, rfl, by simp only [saw, hclock, hv, Option.map_some]⟩

end Twin

/-! ## Instructions -/

theorem alike_tellFault (fault : Fault) :
    Script.Alike (Twin held kept) (tellFault fault : Handling ε Unit) (tellFault fault) := by
  cases fault with
  | strobes names => exact .note _ _
  | unknownCommand code => exact .note _ _
  | _ => exact .answer ()

theorem alike_interpretFrame (start stop : Nat) :
    Script.Alike (Twin held kept) (interpretFrame start stop : Handling ε Unit)
      (interpretFrame start stop) := by
  refine .bind (Twin.modify fun _ => ⟨rfl, rfl, fun _ => rfl⟩) fun _ =>
    .bind (Twin.read fun _ _ => rfl) fun words => ?_
  cases Operation.interpret words.1 words.2 with
  | ok operation =>
    exact .bind (Twin.modify fun _ => ⟨rfl, rfl, fun _ => rfl⟩) fun _ =>
      .bind (.note _ _) fun _ => Twin.emit fun _ _ => rfl
  | error fault =>
    exact .bind (alike_tellFault fault) fun _ =>
      .bind (Twin.modify fun _ => ⟨rfl, rfl, fun _ => rfl⟩) fun _ => Twin.emit fun _ _ => rfl

/-! ## Clock edges -/

theorem alike_outputBit (position start now : Nat) :
    Script.Alike (Twin held kept) (outputBit position start now : Handling ε Unit)
      (outputBit position start now) :=
  .bind (Twin.emit fun _ _ => rfl) fun _ =>
    .bind (Twin.modify fun _ => by by_cases h : position = 1 <;> simp [h]) fun _ =>
      .bind (Twin.modify fun _ => ⟨rfl, rfl, fun _ => rfl⟩) fun _ =>
        .ite (.bind (.note _ _) fun _ => Twin.emit fun _ _ => rfl) (.answer ())

theorem alike_rise (position : Nat) :
    Script.Alike (Twin held kept) (rise v position : Handling ε Unit) (rise v position) :=
  .bind (Twin.read fun _ _ => rfl) fun _ =>
    .bind (Twin.modify fun _ => ⟨rfl, rfl, fun _ => rfl⟩) fun _ =>
      .ite (alike_outputBit _ _ _) (.answer ())

theorem alike_putControl (position start stop : Nat) :
    Script.Alike (Twin held kept) (putControl position start stop : Handling ε Unit)
      (putControl position start stop) := by
  unfold putControl
  split
  · exact Twin.emit fun _ _ => rfl
  · exact .answer ()

theorem alike_inputBits (position start now : Nat) :
    Script.Alike (Twin held kept) (inputBits position start now : Handling ε Unit)
      (inputBits position start now) :=
  .bind (alike_putControl _ _ _) fun _ =>
    .bind (Twin.emit fun _ _ => rfl) fun _ =>
      .bind (Twin.modify fun _ => by by_cases h : position = 1 <;> simp [h]) fun _ =>
        .bind (Twin.modify fun _ => ⟨rfl, rfl, fun _ => rfl⟩) fun _ =>
          .ite (.bind (.note _ _) fun _ =>
            .bind (Twin.emit fun _ _ => rfl) fun _ => Twin.emit fun _ _ => rfl) (.answer ())

theorem alike_fallAt (now start position : Nat) :
    Script.Alike (Twin held kept) (fallAt now start position : Handling ε Unit)
      (fallAt now start position) :=
  .bind (Twin.read fun _ _ => rfl) fun _ =>
    .bind (.ite (alike_interpretFrame _ _) (.answer ())) fun _ =>
      .ite (alike_inputBits _ _ _) (.answer ())

theorem alike_fall :
    Script.Alike (Twin held kept) (fall v : Handling ε Unit) (fall v) := by
  refine .bind (Twin.read fun _ _ => rfl) fun start =>
    .bind (Twin.modify fun _ => ⟨rfl, rfl, fun _ => rfl⟩) fun _ =>
      .bind (Twin.read fun _ _ => rfl) fun position => ?_
  cases position with
  | none => exact .answer ()
  | some position => exact alike_fallAt _ _ _

theorem alike_clockEdge :
    Script.Alike (Twin held kept) (clockEdge v : Handling ε Unit) (clockEdge v) :=
  .ite (.bind (Twin.read fun _ _ => rfl) fun _ =>
    .bind (Twin.modify fun _ => ⟨rfl, rfl, fun _ => rfl⟩) fun _ => alike_rise _) alike_fall

/-- Of a pin vector an edge only takes the time and four levels. -/
theorem clockEdge_congr (htime : w.time = v.time) (hpin : ∀ line < 4, w.pin line = v.pin line) :
    (clockEdge w : Handling ε Unit) = clockEdge v := by
  unfold clockEdge rise fall
  rw [htime, hpin sci (by decide), hpin sii (by decide), hpin sdi (by decide),
    hpin sdo (by decide)]

/-- Every edge is answered. -/
theorem answers_clockEdge_always :
    Script.Answers (clockEdge v : Handling ε Unit) d fun _ _ _ => True := by
  have hrise : ∀ n (d : Decoder),
      Script.Answers (rise v n : Handling ε Unit) d fun _ _ _ => True :=
    fun _ _ => answers_rise.mono fun _ _ _ _ => trivial
  have hframe : ∀ start stop (d : Decoder),
      Script.Answers (interpretFrame start stop : Handling ε Unit) d fun _ _ _ => True :=
    fun _ _ _ => (answers_interpretFrame _ _).mono fun _ _ _ _ => trivial
  have hbits : ∀ n start stop (d : Decoder),
      Script.Answers (inputBits n start stop : Handling ε Unit) d fun _ _ _ => True :=
    fun _ _ _ _ => (answers_inputBits _ _).mono fun _ _ _ _ => trivial
  unfold clockEdge fall
  refine .ite (fun _ => .bind (.read (.bind (.modify (hrise _ _))))) fun _ => ?_
  refine .bind (.read (.bind (.modify (.bind (.read ?_)))))
  split
  · exact .answer trivial
  · unfold fallAt
    have hlast : ∀ n start stop (d : Decoder), Script.Answers
        (Script.onlyIf (isDataBit n) (inputBits n start stop) : Handling ε Unit) d
          fun _ _ _ => True :=
      fun _ _ _ _ => .onlyIf (fun _ => hbits _ _ _ _) fun _ => trivial
    exact .bind (.read (.bind (.onlyIf
      (fun _ => (hframe _ _ _).mono fun _ _ _ _ => hlast _ _ _ _) fun _ => hlast _ _ _ _)))

/-! ## Pin vectors -/

/-- A vector is remembered, and taken for an edge if it changes the clock. -/
theorem answers_feed {Q : Unit → Decoder → List Annotation → Prop}
    (hpins : d.pins = held.map PinVector.pins) (hclock : d.clock = held.map fun u => u.pin sci)
    (hedge : d.clock = some (!v.pin sci) →
      Script.Answers (clockEdge v : Handling ε Unit) (d.saw v) Q)
    (hstill : d.clock ≠ some (!v.pin sci) → Q () (d.saw v) []) :
    Script.Answers (feed v : Handling ε Unit) d Q := by
  by_cases h : d.clock = some (!v.pin sci)
  · obtain ⟨u, rfl, hu⟩ := Option.map_eq_some_iff.1 (hclock.symm.trans h)
    exact answers_feed_edge hpins hclock (by simp [hu]) (hedge h)
  · have hsame : d.pins = some v.pins → d.clock = some (v.pin sci) := by
      intro hv
      obtain ⟨u, rfl, hu⟩ := Option.map_eq_some_iff.1 (hpins.symm.trans hv)
      rw [hclock, Option.map_some, PinVector.pin, hu, PinVector.pin]
    refine (answers_feed_still h hsame).mono ?_
    rintro _ _ _ ⟨rfl, rfl⟩
    exact hstill h

/-- **Twins stay twins** when the vectors they take have the same time and the same four levels, and
they hand on the same. -/
theorem answers_feed_twin (h : Twin held kept d d')
    (hkept : kept.map (fun u => u.pin sci) = held.map fun u => u.pin sci)
    (htime : w.time = v.time) (hpin : ∀ line < 4, w.pin line = v.pin line) :
    Script.Answers (feed v : Handling ε Unit) d fun _ e xs =>
      Script.Answers (feed w : Handling ε Unit) d' fun _ e' ys =>
        Twin (some v) (some w) e e' ∧ ys = xs := by
  have hsci : w.pin sci = v.pin sci := hpin sci (by decide)
  obtain ⟨hpins, hclock, rfl⟩ := h
  have hclock' : ({ d with pins := kept.map PinVector.pins } : Decoder).clock =
      kept.map fun u => u.pin sci := hclock.trans hkept.symm
  have htwin : Twin (some v) (some w) (d.saw v)
      (saw { d with pins := kept.map PinVector.pins } w) :=
    ⟨rfl, rfl, by simp only [saw, hsci, Option.map_some]⟩
  refine answers_feed hpins hclock ?_ ?_
  · intro hedge
    have halike := alike_clockEdge (ε := ε) (v := v) _ _ htwin
    refine (halike.answers answers_clockEdge_always).mono fun _ e xs hruns => ?_
    refine answers_feed rfl hclock' (fun _ => ?_) fun h => absurd (hsci ▸ hedge) h
    rw [clockEdge_congr htime hpin]
    exact hruns.mono fun _ _ _ hrun => hrun.2
  · intro hstill
    exact answers_feed rfl hclock' (fun h => absurd (hsci ▸ h) hstill) fun _ => ⟨htwin, rfl⟩

/-- A vector that changes none of the four levels leaves nothing but its pins. -/
theorem answers_feed_unchanged {u : PinVector} (h : Twin (some u) kept d d')
    (hpin : ∀ line < 4, u.pin line = v.pin line) :
    Script.Answers (feed v : Handling ε Unit) d fun _ e xs =>
      Twin (some v) kept e d' ∧ xs = [] := by
  have hclock : v.pin sci = u.pin sci := (hpin sci (by decide)).symm
  refine answers_feed h.pins h.clock (fun hedge => ?_) fun _ => ⟨h.saw_left hclock, rfl⟩
  rw [h.clock, Option.map_some, hclock] at hedge
  simp at hedge

end Decoder

end Hvsp

end BusDecode
