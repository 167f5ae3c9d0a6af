import BusDecode.Proofs.Hvsp.Registers
import BusDecode.Proofs.Later
import BusDecode.Proofs.Matching

/-!
# HVSP on delayed input

A decoder on delayed input remembers the same edges at later times, and a frame starts later once it
has set its start.  The start of a frame is set by the rising edge of position 0, and those of its
words by the two edges of position 1, so none is looked at before it is set (`Marked`): every pin
vector keeps this, and what it makes the decoder hand on is later (`feed_delays`).  So decoding
commutes with the delay (`decode_delay`).
-/

set_option autoImplicit false

namespace BusDecode

/-- The same pin vector at a later time. -/
def PinVector.delay (c : Nat) (v : PinVector) : PinVector :=
  { v with time := v.time + c }

namespace Hvsp

namespace Decoder

open Script (Matches)

/-! ## Decoders on delayed input -/

/-- The same decoder on delayed input, with starts of its own. -/
def delay (c frameStart inputStart outputStart : Nat) (d : Decoder) : Decoder :=
  { d with
    riseTime := d.riseTime.map (· + c)
    fallTime := d.fallTime.map (· + c)
    frameStart, inputStart, outputStart }

/-- A decoder at a position and with a clock, and the same one on delayed input.  The starts of the
frame, of the input words and of the output word are later if they have been set. -/
structure Delayed (c : Nat) (position : Option Nat) (clock : Option Bool) (frame input output : Prop)
    (d d' : Decoder) : Prop where
  position : d.position = position
  clock : d.clock = clock
  later : ∃ f i o, d' = d.delay c f i o ∧ (frame → f = d.frameStart + c) ∧
    (input → i = d.inputStart + c) ∧ (output → o = d.outputStart + c)

/-- A decoder at a position, and the same one on delayed input.  A frame has a start from its first
rising edge on, its output word from the second one on, and its input words from the second falling
edge on; `level` is the level of the clock up to which edges have been taken. -/
abbrev Marked (c : Nat) (position : Option Nat) (level clock : Option Bool) :
    Decoder → Decoder → Prop :=
  Delayed c position clock (position ≠ none)
    (∃ n, position = some n ∧ 1 ≤ n ∧ (level = some true → 2 ≤ n))
    (∃ n, position = some n ∧ 1 ≤ n)

/-- A decoder that has taken pin vectors, and one that has taken the same ones later. -/
def Follows (c : Nat) (d d' : Decoder) : Prop :=
  ∃ position clock, Marked c position clock clock d d'

/-- A view of a decoder that shows no times. -/
def Timeless {α : Type} (f : Decoder → α) : Prop :=
  ∀ d c frameStart inputStart outputStart,
    f (d.delay c frameStart inputStart outputStart) = f d

variable {ε α : Type} {c : Nat} {position : Option Nat} {clock : Option Bool}
  {frame frame' input input' output output' : Prop} {d d' : Decoder} {v : PinVector}

/-- On delayed input a script does the same, later, and never fails. -/
abbrev Delays (c : Nat) (r r' : Decoder → Decoder → Prop) (m m' : Handling ε α) : Prop :=
  Matches (fun a b => b = a.delay c) r r' (fun _ _ _ => False) m m'

namespace Delayed

theorem imp (h : Delayed c position clock frame input output d d') (hframe : frame' → frame)
    (hinput : input' → input) (houtput : output' → output) :
    Delayed c position clock frame' input' output' d d' := by
  obtain ⟨hposition, hclock, f, i, o, hd, hf, hi, ho⟩ := h
  exact ⟨hposition, hclock, f, i, o, hd, fun h => hf (hframe h), fun h => hi (hinput h),
    fun h => ho (houtput h)⟩

theorem read {f : Decoder → α} (hf : Timeless f)
    (h : Delayed c position clock frame input output d d') : f d' = f d := by
  obtain ⟨-, -, _, _, _, rfl, -, -, -⟩ := h
  exact hf d _ _ _ _

theorem read_bind {α' : Type} {f : Decoder → α} (hf : Timeless f) {r : Decoder → Decoder → Prop}
    {k k' : α → Handling ε α'}
    (hk : ∀ a, Delays c (Delayed c position clock frame input output) r (k a) (k' a)) :
    Delays c (Delayed c position clock frame input output) r (Script.read f >>= k)
      (Script.read f >>= k') :=
  .read_bind (p := Eq) (fun _ _ h => (h.read hf).symm) fun a _ hab => hab ▸ hk a

/-- A change of other fields. -/
theorem modify {f : Decoder → Decoder} (hf : ∀ d frameStart inputStart outputStart,
      f (d.delay c frameStart inputStart outputStart) =
        (f d).delay c frameStart inputStart outputStart)
    (hkeeps : ∀ d, (f d).position = d.position ∧ (f d).clock = d.clock ∧
      (f d).frameStart = d.frameStart ∧ (f d).inputStart = d.inputStart ∧
      (f d).outputStart = d.outputStart) :
    Delays c (Delayed c position clock frame input output)
      (Delayed c position clock frame input output) (Script.modify f : Handling ε Unit)
      (Script.modify f) := by
  refine .modify ?_
  rintro d _ ⟨hposition, hclock, _, _, _, rfl, hframe, hinput, houtput⟩
  obtain ⟨hp, hc, hfs, his, hos⟩ := hkeeps d
  exact ⟨hp.trans hposition, hc.trans hclock, _, _, _, hf d _ _ _, by rwa [hfs], by rwa [his],
    by rwa [hos]⟩

end Delayed

/-! ## Annotating -/

theorem delays_putBit (row : String) (start stop : Nat) {level : Decoder → Bool}
    (hlevel : Timeless level) :
    Delays c (Delayed c position clock frame input output)
      (Delayed c position clock frame input output) (putBit row start stop level : Handling ε Unit)
      (putBit row (start + c) (stop + c) level) :=
  .emit fun d d' h => by rw [h.read hlevel]; rfl

theorem delays_putWord (row : String) (stop : Nat) {start : Decoder → Nat} {word : Decoder → UInt8}
    (hstart : ∀ d d', Delayed c position clock frame input output d d' → start d' = start d + c)
    (hword : Timeless word) :
    Delays c (Delayed c position clock frame input output)
      (Delayed c position clock frame input output) (putWord row start stop word : Handling ε Unit)
      (putWord row start (stop + c) word) :=
  .emit fun d d' h => by rw [h.read hword, hstart d d' h]; rfl

theorem delays_putControl (n start stop : Nat) :
    Delays c (Delayed c position clock frame input output)
      (Delayed c position clock frame input output) (putControl n start stop : Handling ε Unit)
      (putControl n (start + c) (stop + c)) := by
  unfold putControl
  split
  · rename_i line _
    exact .emit fun d d' h => by rw [h.read (f := siiLevel) fun _ _ _ _ _ => rfl]; rfl
  · exact .answer ()

/-! ## Instructions -/

theorem delays_tellFault (fault : Fault) :
    Delays c (Delayed c position clock frame input output)
      (Delayed c position clock frame input output) (tellFault fault : Handling ε Unit)
      (tellFault fault) := by
  cases fault with
  | strobes names => exact .note _ _
  | unknownCommand code => exact .note _ _
  | _ => exact .answer ()

theorem delays_interpretFrame (start stop : Nat) :
    Delays c (Delayed c position clock frame input output)
      (Delayed c position clock frame input output) (interpretFrame start stop : Handling ε Unit)
      (interpretFrame (start + c) (stop + c)) := by
  refine .bind (Delayed.modify (fun _ _ _ _ => rfl) fun _ => ⟨rfl, rfl, rfl, rfl, rfl⟩) fun _ =>
    Delayed.read_bind (fun _ _ _ _ _ => rfl) fun words => ?_
  cases Operation.interpret words.1 words.2 with
  | ok operation =>
    exact .bind (Delayed.modify (fun _ _ _ _ => rfl) fun _ => ⟨rfl, rfl, rfl, rfl, rfl⟩) fun _ =>
      .bind (.note _ _) fun _ => .emit fun _ _ _ => rfl
  | error fault =>
    exact .bind (delays_tellFault fault) fun _ =>
      .bind (Delayed.modify (fun _ _ _ _ => rfl) fun _ => ⟨rfl, rfl, rfl, rfl, rfl⟩) fun _ =>
        .emit fun _ _ _ => rfl

/-! ## Clock edges -/

/-- The start of the output word is set by the rising edge of position 1. -/
theorem delays_outputBit (n start now : Nat) (hn : 1 ≤ n) :
    Delays c (Delayed c position clock frame input (2 ≤ n))
      (Delayed c position clock frame input True) (outputBit n start now : Handling ε Unit)
      (outputBit n (start + c) (now + c)) := by
  refine .bind (delays_putBit _ _ _ fun _ _ _ _ _ => rfl) fun _ => .bind (.modify ?_) fun _ =>
    .bind (Delayed.modify (fun _ _ _ _ => rfl) fun _ => ⟨rfl, rfl, rfl, rfl, rfl⟩) fun _ =>
      .onlyIf (fun _ => .bind (.note _ _) fun _ => delays_putWord _ _ ?_ fun _ _ _ _ _ => rfl)
        fun _ _ _ h => h
  · rintro d _ ⟨hposition, hclock, f, i, o, rfl, hframe, hinput, houtput⟩
    by_cases h1 : n = 1
    · simp only [h1, if_true]
      exact ⟨hposition, hclock, f, i, start + c, rfl, hframe, hinput, fun _ => rfl⟩
    · simp only [h1, if_false]
      exact ⟨hposition, hclock, f, i, o, rfl, hframe, hinput, fun _ => houtput (by omega)⟩
  · rintro d _ ⟨-, -, _, _, o, rfl, -, -, houtput⟩
    exact houtput trivial

theorem delays_rise (n : Nat) :
    Delays c (Delayed c position clock (n ≠ 0) input (2 ≤ n))
      (Delayed c position clock True input (1 ≤ n)) (rise v n : Handling ε Unit)
      (rise (v.delay c) n) := by
  refine .read_bind (p := fun a b => b = a + c) ?_ ?_
  · rintro d _ ⟨-, -, _, _, _, rfl, -⟩
    cases h : d.riseTime <;> simp [delay, h, PinVector.delay]
  rintro start _ rfl
  refine .modify_bind (Delayed c position clock True input (2 ≤ n)) ?_
    (.onlyIf (fun hn => ?_) fun hn => ?_)
  · rintro d _ ⟨hposition, hclock, f, i, o, rfl, hframe, hinput, houtput⟩
    refine ⟨hposition, hclock, if n = 0 then v.time + c else f, i, o, rfl, fun _ => ?_, hinput,
      houtput⟩
    by_cases h0 : n = 0
    · simp only [h0, if_true]
    · simpa only [h0, if_false] using hframe h0
  · have hpos : 1 ≤ n := by simp [isDataBit] at hn; omega
    refine (delays_outputBit n start v.time hpos).mono (fun _ _ h => h) ?_ fun _ _ _ h => h
    exact fun _ _ h => h.imp id id fun _ => trivial
  · refine fun d d' h => h.imp id id fun h1 => ?_
    simp [isDataBit] at hn
    omega

/-- The starts of the input words are set by the falling edge of position 1. -/
theorem delays_inputBits (n start now : Nat) (hn : 1 ≤ n) :
    Delays c (Delayed c position clock frame (2 ≤ n) output)
      (Delayed c position clock frame True output) (inputBits n start now : Handling ε Unit)
      (inputBits n (start + c) (now + c)) := by
  refine .bind (delays_putControl _ _ _) fun _ =>
    .bind (delays_putBit _ _ _ fun _ _ _ _ _ => rfl) fun _ => .bind (.modify ?_) fun _ =>
      .bind (Delayed.modify (fun _ _ _ _ => rfl) fun _ => ⟨rfl, rfl, rfl, rfl, rfl⟩) fun _ =>
        .onlyIf (fun _ => .bind (.note _ _) fun _ =>
          .bind (delays_putWord _ _ ?_ fun _ _ _ _ _ => rfl) fun _ =>
            delays_putWord _ _ ?_ fun _ _ _ _ _ => rfl) fun _ _ _ h => h
  · rintro d _ ⟨hposition, hclock, f, i, o, rfl, hframe, hinput, houtput⟩
    by_cases h1 : n = 1
    · simp only [h1, if_true]
      exact ⟨hposition, hclock, f, start + c, o, rfl, hframe, fun _ => rfl, houtput⟩
    · simp only [h1, if_false]
      exact ⟨hposition, hclock, f, i, o, rfl, hframe, fun _ => hinput (by omega), houtput⟩
  all_goals
    rintro d _ ⟨-, -, _, i, _, rfl, -, hinput, -⟩
    exact hinput trivial

theorem delays_fallAt (now start n : Nat) :
    Delays c (Delayed c position clock True (2 ≤ n) output)
      (Delayed c position clock True (1 ≤ n) output) (fallAt now start n : Handling ε Unit)
      (fallAt (now + c) (start + c) n) := by
  refine .read_bind (p := fun a b => b = (a.1, a.2 + c)) ?_ ?_
  · rintro d _ ⟨-, -, f, _, _, rfl, hframe, -⟩
    rw [delay, hframe trivial]
    rfl
  rintro ⟨last, frameStart⟩ _ rfl
  refine .bind (.onlyIf (fun _ => delays_interpretFrame _ _) fun _ _ _ h => h) fun _ =>
    .onlyIf (fun hn => ?_) fun hn => ?_
  · have hpos : 1 ≤ n := by simp [isDataBit] at hn; omega
    refine (delays_inputBits n start now hpos).mono (fun _ _ h => h) ?_ fun _ _ _ h => h
    exact fun _ _ h => h.imp id (fun _ => trivial) id
  · refine fun d d' h => h.imp id (fun h1 => ?_) id
    simp [isDataBit] at hn
    omega

/-- A position that is not the first one follows the one before it. -/
theorem position_of_nextPosition (h : d.nextPosition ≠ 0) :
    d.position = some (d.nextPosition - 1) := by
  unfold nextPosition at h ⊢
  split at h
  · split at h <;> simp_all
  · exact absurd rfl h

/-- A rising edge opens the next position. -/
theorem delays_rising :
    Delays c (Marked c position (some false) clock)
      (fun d d' => ∃ position, Marked c position (some true) clock d d')
      (do
        let n ← Script.read nextPosition
        Script.modify fun d => { d with position := some n }
        rise v n : Handling ε Unit)
      (do
        let n ← Script.read nextPosition
        Script.modify fun d => { d with position := some n }
        rise (v.delay c) n) := by
  refine .read_bind (p := fun a b => a = b ∧ (a ≠ 0 → position = some (a - 1))) ?_ ?_
  · rintro d _ ⟨rfl, -, _, _, _, rfl, -⟩
    exact ⟨rfl, position_of_nextPosition⟩
  rintro n _ ⟨rfl, hbefore⟩
  refine .modify_bind (Delayed c (some n) clock (n ≠ 0) (2 ≤ n) (2 ≤ n)) ?_
    ((delays_rise n).mono (fun _ _ h => h) ?_ fun _ _ _ h => h)
  · rintro d _ ⟨-, hclock, f, i, o, rfl, hframe, hinput, houtput⟩
    refine ⟨rfl, hclock, f, i, o, rfl, fun h0 => hframe ?_, fun h2 => hinput ?_,
      fun h2 => houtput ?_⟩
    · simp [hbefore h0]
    · exact ⟨n - 1, hbefore (by omega), by omega, by simp⟩
    · exact ⟨n - 1, hbefore (by omega), by omega⟩
  · refine fun _ _ h => ⟨some n, h.imp (fun _ => trivial) ?_ ?_⟩
    · rintro ⟨_, ⟨⟩, -, h2⟩
      exact h2 rfl
    · rintro ⟨_, ⟨⟩, h1⟩
      exact h1

/-- A falling edge closes the position that is open. -/
theorem delays_fall :
    Delays c (Marked c position (some true) clock) (Marked c position (some false) clock)
      (fall v : Handling ε Unit) (fall (v.delay c)) := by
  refine .read_bind (p := fun a b => b = a + c) ?_ ?_
  · rintro d _ ⟨-, -, _, _, _, rfl, -⟩
    cases h : d.fallTime <;> simp [delay, h, PinVector.delay]
  rintro start _ rfl
  refine .modify_bind (Marked c position (some true) clock) ?_
    (.read_bind (p := fun a b => a = b ∧ position = a) ?_ ?_)
  · rintro d _ ⟨hposition, hclock, f, i, o, rfl, hstarts⟩
    exact ⟨hposition, hclock, f, i, o, rfl, hstarts⟩
  · rintro d _ ⟨hposition, -, _, _, _, rfl, -⟩
    exact ⟨rfl, hposition.symm⟩
  rintro _ _ ⟨rfl, rfl⟩
  cases position with
  | none => exact fun _ _ h => .answer () (h.imp id (by simp) id) .nil
  | some n =>
    exact (delays_fallAt v.time start n).mono
      (fun _ _ h => h.imp (by simp) (fun h2 => ⟨n, rfl, by omega, fun _ => h2⟩) id)
      (fun _ _ h => h.imp (fun _ => trivial) (by simp) id) fun _ _ _ h => h

theorem delays_clockEdge :
    Delays c (Marked c position (some (!v.pin sci)) (some (v.pin sci))) (Follows c)
      (clockEdge v : Handling ε Unit) (clockEdge (v.delay c)) := by
  unfold clockEdge
  change Delays c _ _ (if v.pin sci then _ else _) (if v.pin sci then _ else _)
  split
  · rename_i hhigh
    rw [hhigh]
    refine delays_rising.mono (fun _ _ h => h) ?_ fun _ _ _ h => h
    rintro _ _ ⟨position, h⟩
    exact ⟨position, some true, h⟩
  · rename_i hlow
    rw [Bool.eq_false_iff.2 hlow]
    exact delays_fall.mono (fun _ _ h => h) (fun _ _ h => ⟨position, some false, h⟩) fun _ _ _ h => h

/-! ## Pin vectors -/

theorem delays_feed :
    Delays c (Follows c) (Follows c) (feed v : Handling ε Unit) (feed (v.delay c)) := by
  rintro d d' ⟨position, clock, h⟩
  suffices hfeed : Delays c (Marked c position clock clock) (Follows c) (feed v : Handling ε Unit)
      (feed (v.delay c)) from hfeed d d' h
  refine .read_bind (p := fun a b => b = a ∧ a.2 = clock) ?_ ?_
  · rintro d _ ⟨-, hclock, _, _, _, rfl, -⟩
    exact ⟨rfl, hclock⟩
  rintro ⟨pins, clock⟩ _ ⟨rfl, rfl⟩
  refine .onlyIf (fun _ => ?_) fun _ _ _ h => ⟨_, _, h⟩
  refine .modify_bind (Marked c position clock (some (v.pin sci))) ?_ (.onlyIf (fun hedge => ?_) ?_)
  · rintro d _ ⟨hposition, -, f, i, o, rfl, hstarts⟩
    exact ⟨hposition, rfl, f, i, o, rfl, hstarts⟩
  · obtain rfl : clock = some (!v.pin sci) := hedge
    exact delays_clockEdge
  · refine fun hstill _ _ h => ⟨position, _, h.imp id ?_ id⟩
    rintro ⟨n, hn, h1, h2⟩
    refine ⟨n, hn, h1, fun hhigh => h2 ?_⟩
    subst hhigh
    cases hv : v.pin sci <;> simp [hv] at hstill ⊢

end Decoder

/-- **Decoding commutes with a delay** of the input: every annotation is later by it, and nothing
else is different. -/
theorem decode_delay (c : Nat) (name : String) (config : Config) (vs : List PinVector) :
    let run := (Decoder.decode.run (({ name, config } : Decoder), vs)).play (#[] : Array Annotation)
    let run' := (Decoder.decode.run (({ name, config } : Decoder), vs.map (PinVector.delay c))).play
      (#[] : Array Annotation)
    run'.result = run.result ∧ run'.sink = run.sink.map (·.delay c) ∧
      run'.state.1.context = run.state.1.context := by
  have hfresh : Decoder.Follows c { name, config } { name, config } :=
    ⟨none, none, rfl, rfl, 0, 0, 0, rfl, by simp, by simp, by simp⟩
  have hfeeds : List.Forall₂ (fun v w => Decoder.Delays c (Decoder.Follows c) (Decoder.Follows c)
      (Decoder.feed v : Handling Halt Unit) (Decoder.feed w)) vs (vs.map (PinVector.delay c)) :=
    List.forall₂_map_right_iff.2 (List.forall₂_same.2 fun _ _ => Decoder.delays_feed)
  have hmatches := Script.Matches.drain hfeeds hfresh
  simp only [Trace.play_array, Decoder.decode]
  refine ⟨hmatches.result.symm, by simp [hmatches.items_eq_map], ?_⟩
  cases hresult : ((Script.drain Decoder.feed).run (({ name, config } : Decoder), vs)).result with
  | ok _ =>
    obtain ⟨_, _, h⟩ := hmatches.answered _ hresult
    exact h.read fun _ _ _ _ _ => rfl
  | error e => exact (hmatches.failed e hresult).elim

end Hvsp

end BusDecode
