import BusDecode.Proofs.Hvsp.Refusals

/-!
# Positions of the programming clock

The clock position counts the rising edges of the clock round a frame, and nothing else moves it:
neither an edge of which a sink refuses a part nor a frame without any position, which goes round as
one with a single position does.  So the position is known from the pin vectors alone
(`feeds_position`), it and the one after it fit in a byte, and wherever a control line is looked up
there is one.
-/

set_option autoImplicit false

namespace BusDecode

namespace Hvsp

open Clock

/-! ## Rising edges -/

namespace Clock

/-- The number of rising edges of the clock. -/
def risings (vs : List PinVector) : Nat :=
  (edges vs).countP fun v => v.pin sci

variable {us : List PinVector} {u v : PinVector}

theorem risings_still (h : ¬(u.pin sci = false ∧ v.pin sci = true)) :
    risings (us ++ [u] ++ [v]) = risings (us ++ [u]) := by
  rw [risings, edges_concat, risings, List.countP_append]
  by_cases hsame : v.pin sci = u.pin sci
  · rw [if_pos hsame, List.countP_nil, Nat.add_zero]
  · have hv : ¬v.pin sci = true := fun hv => h ⟨by simpa [hv] using hsame, hv⟩
    rw [if_neg hsame, List.countP_singleton, if_neg hv, Nat.add_zero]

theorem risings_rise (hu : u.pin sci = false) (hv : v.pin sci = true) :
    risings (us ++ [u] ++ [v]) = risings (us ++ [u]) + 1 := by
  rw [risings, edges_concat, risings, List.countP_append, if_neg (by simp [hu, hv]),
    List.countP_singleton, if_pos hv]

/-- The clock position that a number of rising edges leads to. -/
def positionAfter (positions rises : Nat) : Option Nat :=
  if rises = 0 then none else some ((rises - 1) % max positions 1)

/-- A position and the one after it fit in a byte if the number of positions does. -/
theorem succ_lt_of_positionAfter {positions rises n : Nat} (hP : positions < UInt8.size)
    (h : positionAfter positions rises = some n) : n + 1 < UInt8.size := by
  unfold positionAfter at h
  split at h
  · cases h
  · have hlt : n < max positions 1 := by
      rw [← Option.some.inj h]
      exact Nat.mod_lt _ (by omega)
    have hsize : UInt8.size = 256 := rfl
    omega

end Clock

/-! ## Feeding one by one -/

namespace Decoder

variable {κ : Type} [Sink κ Annotation]

/-- The decoder and the sink after pin vectors that are fed one by one, each to what the one before
it has left, however that one ended. -/
def feeds (d : Decoder) (sink : κ) : List PinVector → Decoder × κ
  | [] => (d, sink)
  | v :: vs =>
    let p := ((feed v).run d).play sink
    feeds p.state p.sink vs

/-- Decoding feeds the pin vectors up to the first one that fails. -/
theorem decode_feeds (d : Decoder) (sink : κ) (vs : List PinVector) :
    let p := (decode.run (d, vs)).play sink
    ∃ us, vs = us ++ p.state.2 ∧ (p.state.1, p.sink) = feeds d sink us := by
  induction vs generalizing d sink with
  | nil =>
    have hrun : decode.run (d, ([] : List PinVector)) = _ := Script.run_drain_nil d
    rw [hrun]
    exact ⟨[], rfl, rfl⟩
  | cons v vs ih =>
    have hplay : (decode.run (d, v :: vs)).play sink = _ := Trace.play_drain_cons v vs d sink
    rw [hplay]
    rcases hfed : ((feed v).run d).play sink with ⟨e | ⟨⟩, d', sink', told⟩
    · exact ⟨[v], rfl, by simp only [feeds, hfed]⟩
    · obtain ⟨us, hus, hfeeds⟩ := ih d' sink'
      refine ⟨v :: us, congrArg (v :: ·) hus, ?_⟩
      rw [feeds, hfed]
      exact hfeeds

end Decoder

/-! ## The position -/

open Decoder

variable {κ : Type} [Sink κ Annotation] {positions : Nat} {us : List PinVector} {d : Decoder}

/-- What a decoder keeps of the clock: the last pin vector, and the position that the rising edges
so far lead to. -/
structure Counting (positions : Nat) (us : List PinVector) (d : Decoder) : Prop where
  config : d.config.framePositions = positions
  pins : d.pins = us.getLast?.map PinVector.pins
  clock : d.clock = us.getLast?.map fun u => u.pin sci
  position : d.position = positionAfter positions (risings us)

theorem Counting.fresh (name : String) :
    Counting positions [] { name, config := ⟨positions⟩ } :=
  ⟨rfl, rfl, rfl, rfl⟩

/-- Another rising edge opens the next position; in a frame without positions, the first one. -/
theorem Counting.next (h : Counting positions us d) :
    some (nextPosition d) = positionAfter positions (risings us + 1) := by
  have hposition := h.position
  unfold positionAfter at hposition ⊢
  unfold nextPosition
  rw [h.config, if_neg (Nat.succ_ne_zero _), Nat.add_sub_cancel]
  by_cases hnone : risings us = 0
  · rw [hnone] at hposition ⊢
    rw [hposition, if_pos rfl, Nat.zero_mod]
  · obtain ⟨r, hr⟩ := Nat.exists_eq_add_one_of_ne_zero hnone
    rw [if_neg hnone, hr, Nat.add_sub_cancel] at hposition
    rw [hposition, hr, succ_mod (by omega : 0 < max positions 1)]
    have hlt : r % max positions 1 < max positions 1 := Nat.mod_lt _ (by omega)
    congr 1
    simp only
    split <;> split <;> omega

/-- Whatever a sink takes of a pin vector, the position goes by the rising edges. -/
theorem Counting.feed (h : Counting positions us d) (v : PinVector) (sink : κ) :
    Counting positions (us ++ [v]) (((feed v).run d).play sink).state := by
  have hplace := place_feed h.pins h.clock v sink
  simp only [place, Prod.mk.injEq] at hplace
  obtain ⟨hconfig, hpins, hclock, hposition⟩ := hplace
  refine ⟨by rw [hconfig, h.config], by simp [hpins], by simp [hclock], hposition.trans ?_⟩
  rw [h.clock]
  rcases List.eq_nil_or_concat' us with rfl | ⟨us, u, rfl⟩
  · exact h.position
  by_cases hrise : u.pin sci = false ∧ v.pin sci = true
  · rw [if_pos (by simpa using hrise), risings_rise hrise.1 hrise.2]
    exact h.next
  · rw [if_neg (by simpa using hrise), risings_still hrise]
    exact h.position

theorem Counting.feeds (h : Counting positions us d) (sink : κ) (vs : List PinVector) :
    Counting positions (us ++ vs) (feeds d sink vs).1 := by
  induction vs generalizing us d sink with
  | nil => rwa [List.append_nil]
  | cons v vs ih =>
    rw [List.append_cons]
    exact ih (h.feed v sink) _

/-- **The clock position goes by the rising edges**, for every number of positions that fits in a
byte, none included.  Pin vectors are fed one by one, or decoded up to the first that fails, to a
sink that takes what it likes.  The position and the one after it fit in a byte, and every data bit
but the first has a control line. -/
theorem feeds_position (name : String) (positions : UInt8) (vs : List PinVector) (sink : κ) :
    let start : Decoder := { name, config := ⟨positions.toNat⟩ }
    let d := (Decoder.feeds start sink vs).1
    d.position =
        (if risings vs = 0 then none else some ((risings vs - 1) % max positions.toNat 1)) ∧
      (∀ n, d.position = some n → n + 1 < UInt8.size ∧
        (isDataBit n = true → n ≠ 1 →
          2 ≤ n ∧ ∃ h : n - 2 < controlLines.length, controlLine? n = some controlLines[n - 2])) ∧
      nextPosition d < UInt8.size ∧
      ∃ us, us <+: vs ∧
        ((decode.run (start, vs)).play sink).state.1 = (Decoder.feeds start sink us).1 := by
  intro start d
  have hP : positions.toNat < UInt8.size := positions.toNat_lt
  have hcounting : Counting positions.toNat vs d := (Counting.fresh name).feeds sink vs
  refine ⟨hcounting.position, ?_, ?_, ?_⟩
  · intro n hn
    rw [hcounting.position] at hn
    refine ⟨succ_lt_of_positionAfter hP hn, fun hdata hone => ?_⟩
    simp only [isDataBit, Bool.and_eq_true, decide_eq_true_eq] at hdata
    have hlength : controlLines.length = 7 := rfl
    have hline : n - 2 < controlLines.length := by omega
    refine ⟨by omega, hline, ?_⟩
    rw [controlLine?, if_neg (by omega), List.getElem?_eq_getElem hline]
  · have := succ_lt_of_positionAfter hP hcounting.next.symm
    omega
  · obtain ⟨us, hus, hfeeds⟩ := decode_feeds start sink vs
    exact ⟨us, ⟨_, hus.symm⟩, congrArg Prod.fst hfeeds⟩

end Hvsp

end BusDecode
