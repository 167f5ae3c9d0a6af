import BusDecode.Proofs.Hvsp.Framing
import BusDecode.Proofs.Sinks

/-!
# Sinks that refuse now and then

A refused annotation ends the feed in the middle of an edge: words are not shifted and starts not
set.  What the decoder sees of the pins and its place in the frame are there before anything is
handed on, so they are right whatever is refused (`Located`), and the first rising edge of a frame
sets all the rest anew.  From there on `Progress` holds as long as nothing is refused
(`Tracking.play`), and so a frame without a refusal is told in full (`feedAll_contained`).
-/

set_option autoImplicit false

namespace BusDecode

namespace Hvsp

open Clock

/-! ## Frames of a growing list -/

namespace Clock

/-- The clock position at the end of a list of pin vectors. -/
def positionOf (positions : Nat) (vs : List PinVector) : Option Nat :=
  match (cycles vs).length with
  | 0 => none
  | n + 1 => some (n / 2 % positions)

/-- The frame at the end of a list of pin vectors. -/
def frameOf (positions : Nat) (vs : List PinVector) : Option Nat :=
  match (cycles vs).length with
  | 0 => none
  | n + 1 => some (n / 2 / positions)

variable {us : List PinVector} {u v : PinVector}

theorem edges_concat :
    edges (us ++ [u] ++ [v]) =
      edges (us ++ [u]) ++ if v.pin sci = u.pin sci then [] else [v] := by
  induction us with
  | nil =>
    by_cases h : v.pin sci = u.pin sci
    · simp [edges, h]
    · have h' : ¬u.pin sci = v.pin sci := fun h' => h h'.symm
      simp [edges, h, h']
  | cons a us ih =>
    obtain ⟨b, rest, hrest⟩ : ∃ b rest, us ++ [u] = b :: rest :=
      List.exists_cons_of_ne_nil (by simp)
    simp only [List.cons_append, hrest] at ih ⊢
    by_cases h : b.pin sci = a.pin sci
    · rw [edges_still h, edges_still h, ih]
    · replace h : b.pin sci = !a.pin sci := Bool.eq_not_of_ne h
      rw [edges_edge h, edges_edge h, ih, List.cons_append]

theorem cycles_still (h : v.pin sci = u.pin sci) :
    cycles (us ++ [u] ++ [v]) = cycles (us ++ [u]) := by
  rw [cycles, edges_concat, if_pos h, List.append_nil, cycles]

/-- An edge counts unless it is a falling one that no rising one has preceded. -/
theorem cycles_edge (h : v.pin sci = !u.pin sci) :
    cycles (us ++ [u] ++ [v]) =
      if cycles (us ++ [u]) = [] ∧ v.pin sci = false then [] else cycles (us ++ [u]) ++ [v] := by
  have hne : ¬v.pin sci = u.pin sci := by simp [h]
  rw [cycles, edges_concat, if_neg hne, List.dropWhile_append, ← cycles]
  by_cases hnone : cycles (us ++ [u]) = []
  · rw [hnone]
    cases hv : v.pin sci <;> simp [hv]
  · rw [if_neg (by simpa using hnone), if_neg (fun h => hnone h.1)]

/-- The level of the clock goes by the number of its edges. -/
theorem level_cycles (hne : cycles (us ++ [u]) ≠ []) :
    u.pin sci = decide ((cycles (us ++ [u])).length % 2 = 1) := by
  induction us using List.reverseRecOn generalizing u with
  | nil => exact absurd (by simp [cycles, edges]) hne
  | append_singleton us w ih =>
    by_cases h : u.pin sci = w.pin sci
    · rw [cycles_still h] at hne ⊢
      exact h.trans (ih hne)
    · replace h : u.pin sci = !w.pin sci := Bool.eq_not_of_ne h
      rw [cycles_edge h] at hne ⊢
      by_cases hnone : cycles (us ++ [w]) = [] ∧ u.pin sci = false
      · exact absurd (if_pos hnone) hne
      · rw [if_neg hnone, List.length_append, List.length_singleton]
        by_cases hw : cycles (us ++ [w]) = []
        · rw [hw]
          simpa [hw] using hnone
        · rw [h, ih hw]
          rcases Nat.mod_two_eq_zero_or_one (cycles (us ++ [w])).length with hpar | hpar <;>
            simp [hpar, Nat.add_mod]

/-- A rising edge is in the position that the edges before it have led to. -/
theorem positionOf_rise {positions : Nat} (hu : u.pin sci = false) (hv : v.pin sci = true) :
    positionOf positions (us ++ [u] ++ [v]) =
      some ((cycles (us ++ [u])).length / 2 % positions) := by
  have hedge : v.pin sci = !u.pin sci := by rw [hu, hv]; rfl
  rw [positionOf, cycles_edge hedge, if_neg (by simp [hv]), List.length_append,
    List.length_singleton]

/-- A falling edge is in the position of the rising one before it. -/
theorem positionOf_fall {positions : Nat} (hu : u.pin sci = true) (hv : v.pin sci = false) :
    positionOf positions (us ++ [u] ++ [v]) = positionOf positions (us ++ [u]) := by
  have hedge : v.pin sci = !u.pin sci := by rw [hu, hv]; rfl
  rw [positionOf, positionOf, cycles_edge hedge]
  by_cases hnone : cycles (us ++ [u]) = []
  · simp [hnone, hv]
  · have hodd := level_cycles hnone
    rw [hu] at hodd
    rw [if_neg (by simp [hnone]), List.length_append, List.length_singleton]
    cases hn : (cycles (us ++ [u])).length with
    | zero => exact absurd (List.length_eq_zero_iff.1 hn) hnone
    | succ n =>
      rw [hn] at hodd
      have hhalf : (n + 1) / 2 = n / 2 := by simp at hodd; omega
      simp only [hhalf]

theorem cycles_initial (us ws : List PinVector) : cycles us <+: cycles (us ++ ws) := by
  induction ws using List.reverseRecOn with
  | nil => simp
  | append_singleton ws v ih =>
    rw [← List.append_assoc]
    rcases List.eq_nil_or_concat' (us ++ ws) with hnil | ⟨vs, u, hvs⟩
    · obtain ⟨rfl, rfl⟩ := List.append_eq_nil_iff.1 hnil
      simp [cycles, edges]
    · rw [hvs] at ih ⊢
      by_cases h : v.pin sci = u.pin sci
      · rwa [cycles_still h]
      · replace h : v.pin sci = !u.pin sci := Bool.eq_not_of_ne h
        rw [cycles_edge h]
        split
        · rename_i hnone
          rw [hnone.1] at ih
          exact ih
        · exact ih.trans (List.prefix_append _ _)

end Clock

/-! ## The place in the frame -/

namespace Decoder

variable {ε : Type} {us : List PinVector} {u v : PinVector} {d : Decoder} {positions n : Nat}

/-- What a decoder has seen of the pins, and its place in the frame. -/
def place (d : Decoder) : Config × Option UInt16 × Option Bool × Option Nat :=
  (d.config, d.pins, d.clock, d.position)

def SamePlace (d d' : Decoder) : Prop :=
  d'.place = d.place

instance : Std.Refl SamePlace :=
  ⟨fun _ => rfl⟩

instance : Trans SamePlace SamePlace SamePlace where
  trans h h' := Eq.trans h' h

/-- A part that does not move on. -/
abbrev StaysPut {α : Type} (m : Handling ε α) : Prop :=
  Script.Shows SamePlace (fun _ => True) m

theorem staysPut_emit (f : Decoder → Annotation) : StaysPut (Script.emit f : Handling ε Unit) :=
  .emit fun _ => trivial

theorem staysPut_interpretFrame (start stop : Nat) :
    StaysPut (interpretFrame start stop : Handling ε Unit) := by
  have htell : ∀ fault, StaysPut (tellFault fault : Handling ε Unit) := by
    intro fault
    cases fault with
    | strobes names => exact .note _
    | unknownCommand code => exact .note _
    | _ => exact .answer ()
  refine .bind (.modify fun _ => rfl) fun _ => .bind (.read _) fun words => ?_
  cases Operation.interpret words.1 words.2 with
  | ok operation =>
    exact .bind (.modify fun _ => rfl) fun _ =>
      .bind (.note _) fun _ => staysPut_emit _
  | error fault =>
    exact .bind (htell fault) fun _ =>
      .bind (.modify fun _ => rfl) fun _ => staysPut_emit _

theorem staysPut_outputBit (position start now : Nat) :
    StaysPut (outputBit position start now : Handling ε Unit) :=
  .bind (staysPut_emit _) fun _ =>
    .bind (.modify fun _ => by split <;> rfl) fun _ =>
      .bind (.modify fun _ => rfl) fun _ =>
        .ite (.bind (.note _) fun _ => staysPut_emit _) (.answer ())

theorem staysPut_rise (n : Nat) : StaysPut (rise v n : Handling ε Unit) :=
  .bind (.read _) fun _ =>
    .bind (.modify fun _ => rfl) fun _ =>
      .ite (staysPut_outputBit _ _ _) (.answer ())

theorem staysPut_inputBits (position start now : Nat) :
    StaysPut (inputBits position start now : Handling ε Unit) := by
  have hcontrol : StaysPut (putControl position start now : Handling ε Unit) := by
    unfold putControl
    split
    · exact staysPut_emit _
    · exact .answer ()
  exact .bind hcontrol fun _ =>
    .bind (staysPut_emit _) fun _ =>
      .bind (.modify fun _ => by split <;> rfl) fun _ =>
        .bind (.modify fun _ => rfl) fun _ =>
          .ite (.bind (.note _) fun _ =>
            .bind (staysPut_emit _) fun _ => staysPut_emit _) (.answer ())

theorem staysPut_fall : StaysPut (fall v : Handling ε Unit) := by
  refine .bind (.read _) fun start => .bind (.modify fun _ => rfl) fun _ =>
    .bind (.read _) fun position => ?_
  cases position with
  | none => exact .answer ()
  | some position =>
    exact .bind (.read _) fun _ =>
      .bind (.ite (staysPut_interpretFrame _ _) (.answer ())) fun _ =>
        .ite (staysPut_inputBits _ _ _) (.answer ())

/-- Whatever a sink takes of a part that does not move on, the decoder is where it was. -/
theorem StaysPut.play {κ α : Type} [Sink κ Annotation] {m : Handling Halt α} (hm : StaysPut m)
    (d : Decoder) (sink : κ) : ((m.run d).play sink).state.place = d.place := by
  obtain ⟨hlast, hseen⟩ := hm d
  rcases Trace.play_state _ sink with hstate | ⟨item, hitem⟩
  · rw [hstate]
    exact hlast
  · exact (hseen _ _ hitem).1

variable {κ : Type} [Sink κ Annotation]

/-- Whatever a sink takes of an edge, a rising one has opened the next position. -/
theorem place_rise (hv : v.pin sci = true) (sink : κ) :
    (((clockEdge v).run d).play sink).state.place =
      (d.config, d.pins, d.clock, some (nextPosition d)) := by
  have hrun : (clockEdge v : Handling Halt Unit).run d =
      (rise v (nextPosition d)).run { d with position := some (nextPosition d) } := by
    unfold clockEdge
    rw [if_pos hv, Script.run_bind_ok (Script.run_read _ _),
      Script.run_bind_ok (Script.run_modify _ _)]
    rfl
  rw [hrun]
  exact (staysPut_rise _).play _ sink

/-- Whatever a sink takes of an edge, a falling one stays in its position. -/
theorem place_fall (hv : v.pin sci = false) (sink : κ) :
    (((clockEdge v).run d).play sink).state.place = d.place := by
  have hrun : (clockEdge v : Handling Halt Unit).run d = (fall v).run d := by
    unfold clockEdge
    rw [hv]
    rfl
  rw [hrun]
  exact staysPut_fall.play d sink

/-- **One pin vector**, whatever a sink takes of it: the decoder has seen it, and a rising edge of
the clock, and nothing else, has opened the next position. -/
theorem place_feed (hpins : d.pins = us.getLast?.map PinVector.pins)
    (hclock : d.clock = us.getLast?.map fun u => u.pin sci) (v : PinVector) (sink : κ) :
    (((feed v).run d).play sink).state.place =
      (d.config, some v.pins, some (v.pin sci),
        if d.clock = some false ∧ v.pin sci = true then some (nextPosition d)
        else d.position) := by
  rcases List.eq_nil_or_concat' us with rfl | ⟨us, u, rfl⟩
  · replace hpins : d.pins = none := hpins
    replace hclock : d.clock = none := hclock
    rw [run_feed_still (by simp [hclock]) (by simp [hpins]), if_neg (by simp [hclock])]
    rfl
  replace hpins : d.pins = some u.pins := by simpa using hpins
  replace hclock : d.clock = some (u.pin sci) := by simpa using hclock
  by_cases hv : v.pin sci = u.pin sci
  · rw [run_feed_still (by simp [hclock, hv]) (by simp [hclock, hv]),
      if_neg (by simp [hclock, hv])]
    rfl
  replace hv : v.pin sci = !u.pin sci := Bool.eq_not_of_ne hv
  rw [run_feed_edge hpins hclock hv]
  cases hlevel : v.pin sci with
  | true =>
    have hu : u.pin sci = false := by simpa [hlevel] using hv
    rw [if_pos ⟨hclock.trans (congrArg some hu), rfl⟩, place_rise hlevel, ← hlevel]
    rfl
  | false =>
    rw [if_neg (by simp), place_fall hlevel, ← hlevel]
    rfl

end Decoder

/-! ## What holds whatever is refused -/

open Decoder

variable {es us : List PinVector} {u v : PinVector} {d : Decoder} {positions k : Nat}

/-- The decoder knows the last pin vector and where in its frame the clock is. -/
structure Located (positions : Nat) (us : List PinVector) (d : Decoder) : Prop where
  config : d.config.framePositions = positions
  pins : d.pins = us.getLast?.map PinVector.pins
  clock : d.clock = us.getLast?.map fun u => u.pin sci
  position : d.position = positionOf positions us

theorem Located.fresh : Located positions [] { config := ⟨positions⟩ } :=
  ⟨rfl, rfl, rfl, rfl⟩

/-- A number of positions further, the clock is in the first one of the next frame. -/
theorem succ_mod (hP : 0 < positions) (j : Nat) :
    (j + 1) % positions = if j % positions + 1 < positions then j % positions + 1 else 0 := by
  have hlt : j % positions < positions := Nat.mod_lt _ hP
  rw [← Nat.mod_add_mod]
  split
  · exact Nat.mod_eq_of_lt ‹_›
  · rw [(by omega : j % positions + 1 = positions), Nat.mod_self]

/-- The position that a rising edge opens goes by the number of edges before it. -/
theorem Located.next (hP : 0 < positions) (h : Located positions (us ++ [u]) d)
    (hu : u.pin sci = false) :
    nextPosition d = (cycles (us ++ [u])).length / 2 % positions := by
  have hposition := h.position
  unfold positionOf at hposition
  unfold nextPosition
  rw [h.config]
  by_cases hnone : cycles (us ++ [u]) = []
  · rw [hnone] at hposition ⊢
    simp [hposition]
  · have heven := level_cycles hnone
    rw [hu] at heven
    cases hn : (cycles (us ++ [u])).length with
    | zero => exact absurd (List.length_eq_zero_iff.1 hn) hnone
    | succ n =>
      rw [hn] at hposition heven
      obtain ⟨j, rfl⟩ : ∃ j, n = 2 * j + 1 := ⟨n / 2, by simp at heven; omega⟩
      have hhalf : (2 * j + 1 + 1) / 2 = j + 1 := by omega
      rw [hposition, hhalf, succ_mod hP]
      simp only [fall_half]

/-- **Whatever is refused**, the decoder knows its place after every pin vector. -/
theorem Located.play (hP : 0 < positions) (h : Located positions us d) (v : PinVector)
    (sink : Picky Annotation) :
    Located positions (us ++ [v]) (((feed v).run d).play sink).state := by
  have hplace := place_feed h.pins h.clock v sink
  simp only [place, Prod.mk.injEq] at hplace
  obtain ⟨hconfig, hpins, hclock, hposition⟩ := hplace
  refine ⟨by rw [hconfig, h.config], by simp [hpins], by simp [hclock], hposition.trans ?_⟩
  rw [h.clock, h.position]
  rcases List.eq_nil_or_concat' us with rfl | ⟨us, u, rfl⟩
  · rfl
  by_cases hv : v.pin sci = u.pin sci
  · rw [if_neg (by simp [hv]), positionOf, positionOf, cycles_still hv]
  replace hv : v.pin sci = !u.pin sci := Bool.eq_not_of_ne hv
  cases hlevel : v.pin sci with
  | true =>
    have hu : u.pin sci = false := by simpa [hlevel] using hv
    rw [if_pos (by simp [hu]), positionOf_rise hu hlevel]
    exact congrArg some (h.next hP hu :)
  | false =>
    have hu : u.pin sci = true := by simpa [hlevel] using hv
    rw [if_neg (by simp), positionOf_fall hu hlevel]

/-! ## What holds in a frame without a refusal -/

/-- What the last of some pin vectors is to be annotated with, if the others have been seen. -/
def due (es : List PinVector) (positions : Nat) (us : List PinVector) (v : PinVector) :
    List Annotation :=
  if cycles (us ++ [v]) = cycles us then [] else told es positions (cycles us).length

/-- In a certain frame the decoder has also made the progress that the clock edges allow. -/
structure Tracking (es : List PinVector) (positions k : Nat) (us : List PinVector) (d : Decoder) :
    Prop where
  located : Located positions us d
  progress : ∀ {us' u}, us = us' ++ [u] → frameOf positions us = some k →
    Progress es positions (cycles us).length (u.pin sci) d

/-- Two edges of which only the second one is in a frame: that one opens the frame. -/
theorem opens_frame (hP : 0 < positions) {n : Nat} (hbefore : n / 2 / positions ≠ k)
    (hnow : (n + 1) / 2 / positions = k) : n + 1 = 2 * (k * positions) := by
  obtain ⟨j, rfl | rfl⟩ : ∃ j, n = 2 * j ∨ n = 2 * j + 1 := ⟨n / 2, by omega⟩
  · rw [fall_half] at hnow
    exact absurd (by rwa [Nat.mul_div_cancel_left j (by decide)]) hbefore
  · have hhalf : (2 * j + 1 + 1) / 2 = j + 1 := by omega
    rw [hhalf] at hnow
    rw [fall_half] at hbefore
    have hsplit := Nat.div_add_mod (j + 1) positions
    have hmod : (j + 1) % positions < positions := Nat.mod_lt _ hP
    rw [hnow, Nat.mul_comm] at hsplit
    by_cases hzero : (j + 1) % positions = 0
    · omega
    · -- then the edge before would be in the frame too
      have hj : j = positions * k + ((j + 1) % positions - 1) := by
        rw [Nat.mul_comm positions k]
        omega
      rw [hj, Nat.mul_add_div hP, Nat.div_eq_of_lt (by omega), Nat.add_zero] at hbefore
      exact absurd rfl hbefore

/-- In front of a frame the clock is low, and the next rising edge opens its first position. -/
theorem Located.opens (hP : 0 < positions) (h : Located positions (us ++ [u]) d)
    (hv : v.pin sci = !u.pin sci) (hcounts : ¬(cycles (us ++ [u]) = [] ∧ v.pin sci = false))
    (hbefore : frameOf positions (us ++ [u]) ≠ some k)
    (hnow : (cycles (us ++ [u])).length / 2 / positions = k) :
    (cycles (us ++ [u])).length = 2 * (k * positions) ∧ v.pin sci = true ∧
      nextPosition d = 0 := by
  have hlength : (cycles (us ++ [u])).length = 2 * (k * positions) := by
    unfold frameOf at hbefore
    cases hn : (cycles (us ++ [u])).length with
    | zero =>
      rw [hn, Nat.zero_div] at hnow
      rw [← hnow, Nat.zero_mul]
    | succ n =>
      rw [hn] at hbefore hnow
      exact opens_frame hP (fun heq => hbefore (congrArg some heq)) hnow
  have hhigh : v.pin sci = true := by
    by_cases hnone : cycles (us ++ [u]) = []
    · simpa [hnone] using hcounts
    · rw [hv, level_cycles hnone, hlength]
      simp
  refine ⟨hlength, hhigh, ?_⟩
  have hlow : u.pin sci = false := by simpa [hhigh] using hv
  rw [h.next hP hlow, hlength, Nat.mul_div_cancel_left _ (by decide), Nat.mul_mod_left]

/-- A vector of the frame brings the decoder as far as the clock edges allow. -/
theorem Tracking.feed (hP : 3 ≤ positions) (h : Tracking es positions k us d)
    (hes : cycles (us ++ [v]) <+: es) (hframe : frameOf positions (us ++ [v]) = some k) :
    Script.Answers (feed v : Handling Halt Unit) d fun _ d' xs =>
      Progress es positions (cycles (us ++ [v])).length (v.pin sci) d' ∧
        xs = due es positions us v := by
  rcases List.eq_nil_or_concat' us with rfl | ⟨us, u, rfl⟩
  · exact absurd hframe (by simp [frameOf, cycles, edges])
  have hpins : d.pins = some u.pins := by simpa using h.located.pins
  have hclock : d.clock = some (u.pin sci) := by simpa using h.located.clock
  by_cases hv : v.pin sci = u.pin sci
  · rw [frameOf, cycles_still hv] at hframe
    refine (answers_feed_still (by simp [hclock, hv]) (by simp [hclock, hv])).mono ?_
    rintro _ _ _ ⟨rfl, rfl⟩
    rw [due, cycles_still hv, if_pos rfl, hv]
    exact ⟨(h.progress rfl hframe).saw v, rfl⟩
  replace hv : v.pin sci = !u.pin sci := Bool.eq_not_of_ne hv
  have hcounts : ¬(cycles (us ++ [u]) = [] ∧ v.pin sci = false) := by
    intro hnone
    rw [frameOf, cycles_edge hv, if_pos hnone] at hframe
    cases hframe
  have hcycles : cycles (us ++ [u] ++ [v]) = cycles (us ++ [u]) ++ [v] := by
    rw [cycles_edge hv, if_neg hcounts]
  have hdue : due es positions (us ++ [u]) v = told es positions (cycles (us ++ [u])).length := by
    rw [due, if_neg (by rw [hcycles]; simp)]
  rw [hcycles] at hes
  have hlen : (cycles (us ++ [u])).length < es.length := by
    have := hes.length_le
    rw [List.length_append, List.length_singleton] at this
    omega
  have hget : es[(cycles (us ++ [u])).length]! = v := by
    obtain ⟨rest, rfl⟩ := hes
    simp
  rw [frameOf, hcycles, List.length_append, List.length_singleton] at hframe
  replace hframe := Option.some.inj hframe
  rw [hdue, hcycles, List.length_append, List.length_singleton]
  apply answers_feed_edge hpins hclock hv
  by_cases hbefore : frameOf positions (us ++ [u]) = some k
  · refine (answers_clockEdge hP ((h.progress rfl hbefore).saw v) hlen hget hv).mono ?_
    rintro _ _ _ ⟨hprogress, -, rfl⟩
    exact ⟨hv ▸ hprogress, rfl⟩
  · obtain ⟨hlength, hhigh, hnext⟩ :=
      h.located.opens (by omega) hv hcounts hbefore hframe
    rw [hlength] at hget ⊢
    refine (answers_clockEdge_opening (d := d.saw v) (by omega) h.located.config hnext hget
      hhigh).mono ?_
    rintro _ _ _ ⟨hprogress, -, rfl⟩
    exact ⟨hhigh ▸ hprogress, rfl⟩

/-- **A vector in a frame without a refusal** is taken in full, and one in another frame leaves the
decoder at the right place. -/
theorem Tracking.play (hP : 3 ≤ positions) (h : Tracking es positions k us d)
    (hes : cycles (us ++ [v]) <+: es) (sink : Picky Annotation) :
    let p := ((Decoder.feed v).run d).play sink.wiped
    (frameOf positions (us ++ [v]) = some k → p.sink.refused = []) →
    Tracking es positions k (us ++ [v]) p.state ∧
      (frameOf positions (us ++ [v]) = some k → p.sink.taken = due es positions us v) := by
  intro p hrefused
  have hlocated := h.located.play (by omega) v sink.wiped
  by_cases hframe : frameOf positions (us ++ [v]) = some k
  · obtain ⟨_, d', effects, hrun, hprogress, hitems⟩ := (h.feed hP hes hframe).run
    have hp : p.state = d' ∧ p.sink.taken = effects.filterMap Effect.item? := by
      rcases (Picky.play_cases ((Decoder.feed v).run d) sink.wiped).2 with
        ⟨-, hstate, htaken, -⟩ | ⟨item, -, hsome, -⟩
      · exact ⟨hstate.trans (by rw [hrun]), htaken.trans (by rw [hrun]; rfl)⟩
      · exact absurd (hsome.symm.trans (hrefused hframe)) (by simp)
    refine ⟨⟨hlocated, ?_⟩, fun _ => hp.2.trans hitems⟩
    intro us' u hus _
    obtain ⟨rfl, hlast⟩ := List.append_inj' hus rfl
    cases hlast
    rw [hp.1]
    exact hprogress
  · exact ⟨⟨hlocated, fun _ hsome => absurd hsome hframe⟩, fun hsome => absurd hsome hframe⟩

/-! ## Feeding one by one -/

/-- What became of a pin vector: the frame it is in, going by the clock edges up to it, how its feed
ended, and the annotations that were taken and refused. -/
structure Fed where
  frame : Option Nat
  result : Except Halt Unit
  taken : List Annotation
  refused : List Annotation

/-- Feeds pin vectors one by one behind others, each to what the one before it has left, however
that one ended. -/
def feedAll (positions : Nat) (us : List PinVector) (d : Decoder) (sink : Picky Annotation) :
    List PinVector → List Fed
  | [] => []
  | v :: vs =>
    let p := ((Decoder.feed v).run d).play sink.wiped
    ⟨frameOf positions (us ++ [v]), p.result, p.sink.taken, p.sink.refused⟩ ::
      feedAll positions (us ++ [v]) p.state p.sink vs

/-- What the pin vectors of a frame are to be annotated with. -/
def dueAll (es : List PinVector) (positions k : Nat) (us : List PinVector) :
    List PinVector → List (List Annotation)
  | [] => []
  | v :: vs =>
    if frameOf positions (us ++ [v]) = some k then
      due es positions us v :: dueAll es positions k (us ++ [v]) vs
    else dueAll es positions k (us ++ [v]) vs

/-- A frame without a refusal is told in full. -/
theorem feedAll_due (hP : 3 ≤ positions) (vs : List PinVector) {sink : Picky Annotation}
    (h : Tracking es positions k us d) (hes : cycles (us ++ vs) <+: es)
    (hrefused : ∀ fed ∈ feedAll positions us d sink vs, fed.frame = some k → fed.refused = []) :
    ((feedAll positions us d sink vs).filter fun fed => fed.frame = some k).map Fed.taken =
      dueAll es positions k us vs := by
  induction vs generalizing us d sink with
  | nil => rfl
  | cons v vs ih =>
    rw [List.append_cons] at hes
    obtain ⟨hnext, htaken⟩ := h.play hP ((cycles_initial _ vs).trans hes) sink
      (hrefused _ List.mem_cons_self)
    have hrest := ih hnext hes fun fed hfed => hrefused fed (List.mem_cons_of_mem _ hfed)
    rw [feedAll, dueAll, List.filter_cons]
    by_cases hframe : frameOf positions (us ++ [v]) = some k
    · rw [if_pos (decide_eq_true hframe), if_pos hframe, List.map_cons, hrest, htaken hframe]
    · rw [if_neg (by simpa using hframe), if_neg hframe, hrest]

/-- A sink that refuses nothing does so to the end. -/
theorem feedAll_sound (vs : List PinVector) {sink : Picky Annotation}
    (hsink : sink.refusal = fun _ => none) :
    ∀ fed ∈ feedAll positions us d sink vs, fed.refused = [] := by
  induction vs generalizing us d sink with
  | nil => simp [feedAll]
  | cons v vs ih =>
    obtain ⟨hrefusal, hcases⟩ := Picky.play_cases ((Decoder.feed v).run d) sink.wiped
    intro fed hfed
    rcases List.mem_cons.1 hfed with rfl | hfed
    · rcases hcases with ⟨-, -, -, hrefused⟩ | ⟨_, n, -, hsome⟩
      · exact hrefused
      · have hnone : sink.wiped.refusal n = none := congrFun hsink n
        rw [hnone] at hsome
        cases hsome
    · exact ih (hrefusal.trans hsink) fed hfed

/-- **A refusal does not reach beyond its frame.**  Pin vectors are fed one by one to a sink that
refuses what it likes.  In a frame in which it has refused nothing, each feed hands on the same
annotations as to a sink that refuses nothing at all. -/
theorem feedAll_contained (positions : Nat) (hP : 9 ≤ positions) (vs : List PinVector)
    (refusal : Nat → Option Halt) (k : Nat)
    (hrefused : ∀ fed ∈ feedAll positions [] { config := ⟨positions⟩ } { refusal := refusal } vs,
      fed.frame = some k → fed.refused = []) :
    ((feedAll positions [] { config := ⟨positions⟩ } { refusal := refusal } vs).filter
        fun fed => fed.frame = some k).map Fed.taken =
      ((feedAll positions [] { config := ⟨positions⟩ } { refusal := fun _ => none } vs).filter
        fun fed => fed.frame = some k).map Fed.taken := by
  have htracking : Tracking (cycles vs) positions k [] { config := ⟨positions⟩ } :=
    ⟨.fresh, fun hnil => absurd hnil (by simp)⟩
  have hall : cycles ([] ++ vs) <+: cycles vs := List.prefix_refl _
  rw [feedAll_due (by omega) vs htracking hall hrefused,
    feedAll_due (by omega) vs htracking hall fun fed hfed _ => feedAll_sound vs rfl fed hfed]

/-- Two annotations of the first frame are refused, and the second frame is none the worse. -/
theorem feedAll_contained_second :
    9 ≤ 9 ∧
      let vs : List PinVector := (List.range 37).map fun i => ⟨i, if i % 2 = 0 then 8 else 3⟩
      let refusal (n : Nat) : Option Halt :=
        if n = 4 ∨ n = 9 then some (.sendFailed "full") else none
      let feds := feedAll 9 [] { config := ⟨9⟩ } { refusal := refusal } vs
      feds.countP (fun fed => fed.refused ≠ []) = 2 ∧
        (∀ fed ∈ feds, fed.frame = some 1 → fed.refused = []) ∧
        (feds.filter fun fed => fed.frame = some 1).map Fed.taken =
          ((feedAll 9 [] { config := ⟨9⟩ } { refusal := fun _ => none } vs).filter
            fun fed => fed.frame = some 1).map Fed.taken := by
  refine ⟨by decide, ?_⟩
  intro vs refusal feds
  have hrefused : ∀ fed ∈ feds, fed.frame = some 1 → fed.refused = [] := by decide +kernel
  exact ⟨by decide +kernel, hrefused, feedAll_contained 9 (by decide) vs refusal 1 hrefused⟩

end Hvsp

end BusDecode
