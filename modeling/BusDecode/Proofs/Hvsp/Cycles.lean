import BusDecode.Proofs.Hvsp.Edges

/-!
# Runs over the clock cycles

A run of the decoder is one of its clock edges: a pin vector that is no edge is only remembered, and
before the first rising edge a falling one only takes SDO.  What the edges from the first rising one
on keep (`Kept`) holds at the end of every run (`Kept.drain`).
-/

set_option autoImplicit false

namespace BusDecode

namespace Hvsp

open Clock

namespace Decoder

variable {ε : Type} {d : Decoder} {v : PinVector}

/-! ## Pin vectors -/

/-- The decoder after a pin vector that is no edge of the clock. -/
def saw (d : Decoder) (v : PinVector) : Decoder :=
  { d with pins := some v.pins, clock := some (v.pin sci) }

/-- A vector that leaves the clock as it was only is remembered. -/
theorem run_feed_still (hd : d.clock ≠ some (!v.pin sci))
    (heq : d.pins = some v.pins → d.clock = some (v.pin sci)) :
    (feed v : Handling ε Unit).run d = ⟨.ok (), d.saw v, []⟩ := by
  unfold feed
  rw [Script.run_bind_ok (Script.run_read _ _), Script.after_nil, Script.onlyIf]
  split
  · rw [Script.run_bind_ok (Script.run_modify _ _), Script.after_nil, Script.onlyIf, if_neg hd]
    rfl
  · rename_i h
    have hpins : d.pins = some v.pins := Decidable.not_not.1 h
    rw [Script.run_pure, Decoder.saw, ← hpins, ← heq hpins]

theorem run_feed_edge {u : PinVector} (hpins : d.pins = some u.pins)
    (hclock : d.clock = some (u.pin sci)) (hv : v.pin sci = !u.pin sci) :
    (feed v : Handling ε Unit).run d = (clockEdge v).run (d.saw v) := by
  have hne : d.pins ≠ some v.pins := by
    intro heq
    have hsame : v.pins = u.pins := Option.some.inj (heq.symm.trans hpins)
    simp [PinVector.pin, hsame] at hv
  have hedge : d.clock = some (!v.pin sci) := by simp [hclock, hv]
  unfold feed
  rw [Script.run_bind_ok (Script.run_read _ _), Script.onlyIf, if_pos hne,
    Script.run_bind_ok (Script.run_modify _ _), Script.onlyIf, if_pos hedge]
  rfl

theorem answers_feed_still (hd : d.clock ≠ some (!v.pin sci))
    (heq : d.pins = some v.pins → d.clock = some (v.pin sci)) :
    Script.Answers (feed v : Handling ε Unit) d fun _ d' xs => d' = d.saw v ∧ xs = [] := by
  unfold Script.Answers Script.Ends
  rw [run_feed_still hd heq]
  exact ⟨rfl, rfl⟩

theorem answers_feed_edge {Q : Unit → Decoder → List Annotation → Prop} {u : PinVector}
    (hpins : d.pins = some u.pins) (hclock : d.clock = some (u.pin sci))
    (hv : v.pin sci = !u.pin sci) (h : Script.Answers (clockEdge v : Handling ε Unit) (d.saw v) Q) :
    Script.Answers (feed v : Handling ε Unit) d Q := by
  unfold Script.Answers Script.Ends at h ⊢
  rw [run_feed_edge hpins hclock hv]
  exact h

/-- An edge of the clock does not touch what was seen of the pins. -/
theorem answers_clockEdge_seen :
    Script.Answers (clockEdge v : Handling ε Unit) d fun _ d' _ =>
      d'.pins = d.pins ∧ d'.clock = d.clock := by
  unfold clockEdge
  split
  · refine .bind (.read (.bind (.modify (answers_rise.mono ?_))))
    rintro _ _ _ ⟨rfl, -⟩
    exact ⟨rfl, rfl⟩
  · cases hd : d.position with
    | none =>
      refine (answers_fall_before hd).mono ?_
      rintro _ _ _ ⟨rfl, -⟩
      exact ⟨rfl, rfl⟩
    | some n =>
      refine (answers_fall hd).mono ?_
      rintro _ _ _ ⟨⟨count, rfl⟩, -⟩
      exact ⟨rfl, rfl⟩

/-- What a decoder becomes as long as the clock does not rise. -/
def Awaits (d d' : Decoder) : Prop :=
  d' = { d with
    pins := d'.pins
    clock := d'.clock
    sdoLevel := d'.sdoLevel
    fallTime := d'.fallTime }

theorem Awaits.refl (d : Decoder) : d.Awaits d :=
  rfl

theorem Awaits.position {d' : Decoder} (h : d.Awaits d') : d'.position = d.position := by
  rw [h]

theorem Awaits.saw {d' : Decoder} (h : d.Awaits d') (v : PinVector) : d.Awaits (d'.saw v) := by
  rw [Awaits, Decoder.saw, h]

/-- Before the first rising edge a falling one only takes SDO. -/
theorem answers_clockEdge_before {d' : Decoder} (hd : d.position = none) (h : d.Awaits d')
    (hv : v.pin sci = false) :
    Script.Answers (clockEdge v : Handling ε Unit) d' fun _ d' xs => d.Awaits d' ∧ xs = [] := by
  unfold clockEdge
  rw [hv]
  refine (answers_fall_before (h.position.trans hd)).mono ?_
  rintro _ _ _ ⟨rfl, rfl⟩
  refine ⟨?_, rfl⟩
  rw [Awaits, h]

end Decoder

/-! ## Edges of a run -/

variable {es : List PinVector} {u : PinVector}

theorem edges_still {v : PinVector} {vs : List PinVector} (h : v.pin sci = u.pin sci) :
    edges (u :: v :: vs) = edges (v :: vs) := by
  simp [edges, h]

theorem edges_edge {v : PinVector} {vs : List PinVector} (h : v.pin sci = !u.pin sci) :
    edges (u :: v :: vs) = v :: edges (v :: vs) := by
  simp [edges, h]

/-- What each clock edge keeps, from the first rising one on.  `I m level d xs` is about the decoder
after `m` edges, the last of them to `level`, and the annotations made by then. -/
structure Kept (es : List PinVector) (d₀ : Decoder)
    (I : Nat → Bool → Decoder → List Annotation → Prop) : Prop where
  saw : ∀ {m : Nat} {level : Bool} {d : Decoder} {xs : List Annotation} (v : PinVector),
    I m level d xs → I m level (d.saw v) xs
  first : ∀ {d : Decoder} {v : PinVector}, d₀.Awaits d → 0 < es.length → es[0]! = v →
    v.pin sci = true →
      Script.Answers (Decoder.clockEdge v : Handling Halt Unit) d fun _ d' xs => I 1 true d' xs
  next : ∀ {m : Nat} {level : Bool} {d : Decoder} {xs : List Annotation} {v : PinVector},
    I m level d xs → m < es.length → es[m]! = v → v.pin sci = !level →
      Script.Answers (Decoder.clockEdge v : Handling Halt Unit) d fun _ d' ys =>
        I (m + 1) (!level) d' (xs ++ ys)

namespace Kept

variable {d₀ d : Decoder} {I : Nat → Bool → Decoder → List Annotation → Prop} {m : Nat}
  {xs : List Annotation}

/-- From the first rising edge on. -/
theorem drain_after (hI : Kept es d₀ I) (vs : List PinVector) (h : I m (u.pin sci) d xs)
    (hm : m ≤ es.length) (hpins : d.pins = some u.pins) (hclock : d.clock = some (u.pin sci))
    (hes : es.drop m = edges (u :: vs)) :
    Script.Answers (Script.drain Decoder.feed) (d, vs) fun _ s ys =>
      ∃ level, I es.length level s.1 (xs ++ ys) := by
  induction vs generalizing u d m xs with
  | nil =>
    have hend : m = es.length := Nat.le_antisymm hm (List.drop_eq_nil_iff.1 hes)
    exact .drain_nil ⟨_, by rwa [List.append_nil, ← hend]⟩
  | cons v vs ih =>
    refine .drain_cons ?_
    by_cases hv : v.pin sci = u.pin sci
    · rw [edges_still hv] at hes
      refine (Decoder.answers_feed_still (by simp [hclock, hv]) (by simp [hclock, hv])).mono ?_
      rintro _ _ _ ⟨rfl, rfl⟩
      exact ih (hv ▸ hI.saw v h) hm rfl rfl hes
    · replace hv : v.pin sci = !u.pin sci := Bool.eq_not_of_ne hv
      rw [edges_edge hv] at hes
      have hlen : m < es.length := by
        have := congrArg List.length hes
        rw [List.length_drop, List.length_cons] at this
        omega
      obtain ⟨hhead, htail⟩ := List.cons.inj ((List.drop_eq_getElem_cons hlen).symm.trans hes)
      have hget : es[m]! = v := by rw [getElem!_pos es m hlen, hhead]
      apply Decoder.answers_feed_edge hpins hclock hv
      refine ((hI.next (hI.saw v h) hlen hget hv).and Decoder.answers_clockEdge_seen).imp ?_
        fun _ _ _ h => h.1
      rintro _ d' ys ⟨h', hpins', hclock'⟩
      refine (ih (hv ▸ h') hlen hpins' hclock' htail).mono ?_
      rintro _ s zs ⟨level, hs⟩
      exact ⟨level, by rwa [List.append_assoc] at hs⟩

/-- Up to the first rising edge nothing is annotated. -/
theorem drain_before (hI : Kept es d₀ I) (hd₀ : d₀.position = none) (vs : List PinVector)
    (h : d₀.Awaits d) (hpins : d.pins = some u.pins) (hclock : d.clock = some (u.pin sci))
    (hes : es = (edges (u :: vs)).dropWhile fun v => !v.pin sci) :
    Script.Answers (Script.drain Decoder.feed) (d, vs) fun _ s xs =>
      (es = [] ∧ d₀.Awaits s.1 ∧ xs = []) ∨ ∃ level, I es.length level s.1 xs := by
  induction vs generalizing u d with
  | nil => exact .drain_nil (.inl ⟨hes, h, rfl⟩)
  | cons v vs ih =>
    refine .drain_cons ?_
    by_cases hv : v.pin sci = u.pin sci
    · rw [edges_still hv] at hes
      refine (Decoder.answers_feed_still (by simp [hclock, hv]) (by simp [hclock, hv])).mono ?_
      rintro _ _ _ ⟨rfl, rfl⟩
      exact ih (h.saw v) rfl rfl hes
    · replace hv : v.pin sci = !u.pin sci := Bool.eq_not_of_ne hv
      rw [edges_edge hv] at hes
      apply Decoder.answers_feed_edge hpins hclock hv
      cases hrise : v.pin sci with
      | false =>
        rw [List.dropWhile_cons_of_pos (by simp [hrise])] at hes
        refine ((Decoder.answers_clockEdge_before hd₀ (h.saw v) hrise).and
          Decoder.answers_clockEdge_seen).imp ?_ fun _ _ _ h => h.1
        rintro _ d' _ ⟨⟨h', rfl⟩, hpins', hclock'⟩
        exact ih h' hpins' hclock' hes
      | true =>
        rw [List.dropWhile_cons_of_neg (by simp [hrise])] at hes
        have hlen : 0 < es.length := by simp [hes]
        refine ((hI.first (h.saw v) hlen (by simp [hes]) hrise).and
          Decoder.answers_clockEdge_seen).imp ?_ fun _ _ _ h => h.1
        rintro _ d' xs ⟨h', hpins', hclock'⟩
        exact (hI.drain_after vs (hrise ▸ h') hlen hpins' hclock' (by simp [hes])).mono
          fun _ _ _ => .inr

/-- **A whole run** ends well, and either the clock never rose or what the edges keep holds after
the last of them. -/
theorem drain {vs : List PinVector} (hI : Kept (cycles vs) d₀ I) (hposition : d₀.position = none)
    (hpins : d₀.pins = none) (hclock : d₀.clock = none) :
    Script.Answers (Script.drain Decoder.feed) (d₀, vs) fun _ s xs =>
      (cycles vs = [] ∧ d₀.Awaits s.1 ∧ xs = []) ∨ ∃ level, I (cycles vs).length level s.1 xs := by
  cases vs with
  | nil => exact .drain_nil (.inl ⟨rfl, .refl d₀, rfl⟩)
  | cons v vs =>
    refine .drain_cons ((Decoder.answers_feed_still (by simp [hclock]) (by simp [hpins])).mono ?_)
    rintro _ _ _ ⟨rfl, rfl⟩
    exact hI.drain_before hposition vs ((Decoder.Awaits.refl d₀).saw v) rfl rfl rfl

end Kept

end Hvsp

end BusDecode
