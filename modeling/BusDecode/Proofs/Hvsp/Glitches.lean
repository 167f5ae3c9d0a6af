import BusDecode.Proofs.Hvsp.Likeness
import Mathlib.Data.List.Forall2

/-!
# Only clock edges count

Two lists of pin vectors with the same clock level at the start and the same clock edges decode
alike (`outcome_edges`): repeated vectors, changes of the data lines between two edges and the pins
past the fourth line leave no trace.  The proof runs both lists at once.  A vector that is no edge
is taken on its own side, and changes nothing but the remembered pins; two edges are taken together.
-/

set_option autoImplicit false

namespace BusDecode

namespace Hvsp

/-! ## Vectors and edges -/

/-- Two pin vectors with the same time and the same levels of the four lines. -/
structure SameLines (v w : PinVector) : Prop where
  time : w.time = v.time
  pin : ∀ line < 4, w.pin line = v.pin line

namespace SameLines

instance : DecidableRel SameLines := fun v w =>
  decidable_of_iff (w.time = v.time ∧ ∀ line < 4, w.pin line = v.pin line)
    ⟨fun h => ⟨h.1, h.2⟩, fun h => ⟨h.time, h.pin⟩⟩

instance : Std.Refl SameLines := ⟨fun _ => ⟨rfl, fun _ _ => rfl⟩⟩

theorem clock {v w : PinVector} (h : SameLines v w) : w.pin sci = v.pin sci :=
  h.pin sci (by decide)

end SameLines

namespace Clock

variable {u v : PinVector} {vs ws : List PinVector}

theorem edges_cons (u v : PinVector) (vs : List PinVector) :
    edges (u :: v :: vs) = (if v.pin sci = u.pin sci then [] else [v]) ++ edges (v :: vs) := by
  split
  · exact edges_still ‹_›
  · exact edges_edge (Bool.eq_not.2 ‹_›)

/-- Of the vector before the first edge only the clock level matters. -/
theorem edges_head (h : v.pin sci = u.pin sci) : edges (v :: vs) = edges (u :: vs) := by
  cases vs with
  | nil => rfl
  | cons w vs => rw [edges_cons, edges_cons, h]

/-- A vector that leaves the clock as it was can go. -/
theorem edges_drop (before : List PinVector) (h : v.pin sci = u.pin sci) :
    edges (before ++ u :: v :: vs) = edges (before ++ u :: vs) := by
  induction before with
  | nil => exact (edges_still h).trans (edges_head h)
  | cons b before ih =>
    cases before <;> exact (edges_cons ..).trans ((congrArg _ ih).trans (edges_cons ..).symm)

theorem edges_sameLines (h : List.Forall₂ SameLines vs ws) :
    List.Forall₂ SameLines (edges vs) (edges ws) := by
  induction h with
  | nil => exact .nil
  | cons hvw hrest ih =>
    cases hrest with
    | nil => exact .nil
    | cons hvw' hrest =>
      rw [edges_cons, edges_cons, hvw.clock, hvw'.clock]
      split
      · exact ih
      · exact .cons hvw' ih

end Clock

open Clock

/-! ## Two lists at once -/

section Draining

open Decoder

variable {d d' : Decoder} {u u' v w : PinVector} {vs ws : List PinVector}

/-- What a decoder does with the vectors of a list. -/
abbrev draining (d : Decoder) (vs : List PinVector) :
    Trace (Decoder × List PinVector) Annotation Halt Unit :=
  (Script.drain feed).run (d, vs)

/-- The decoders that two runs leave are twins. -/
def EndTwins (t t' : Decoder × List PinVector) : Prop :=
  ∃ held kept, Twin held kept t.1 t'.1

/-- A vector that is no edge is taken without an annotation. -/
theorem draining_still (hnone : d.clock ≠ some (!v.pin sci))
    (heq : d.pins = some v.pins → d.clock = some (v.pin sci)) (vs : List PinVector) :
    ∃ effects, draining d (v :: vs) = (draining (d.saw v) vs).after effects ∧
      effects.filterMap Effect.item? = [] := by
  have hfeed := answers_feed_still (ε := Halt) hnone heq
  obtain ⟨_, _, effects, hrun, rfl, hitems⟩ := hfeed.run
  exact ⟨_, Script.run_drain_cons hrun, (Trace.filterMap_mapState _ _).trans hitems⟩

/-- Twins take two vectors that say the same. -/
theorem alike_draining_cons (htwin : Twin (some u) (some u') d d')
    (hclock : u'.pin sci = u.pin sci) (hvw : SameLines v w)
    (hrest : ∀ e e', Twin (some v) (some w) e e' →
      (draining e vs).Alike EndTwins (draining e' ws)) :
    (draining d (v :: vs)).Alike EndTwins (draining d' (w :: ws)) := by
  obtain ⟨_, e, effects, hrun, hfed⟩ :=
    (answers_feed_twin htwin (congrArg some hclock) hvw.time hvw.pin).run
  obtain ⟨_, e', effects', hrun', htwin', hitems⟩ := hfed.run
  rw [draining, draining, Script.run_drain_cons hrun, Script.run_drain_cons hrun']
  refine (hrest e e' htwin').after ?_
  rw [Trace.filterMap_mapState, Trace.filterMap_mapState, hitems]

theorem alike_draining_nil (htwin : Twin (some u) (some u') d d') :
    (draining d []).Alike EndTwins (draining d' []) := by
  rw [draining, draining, Script.run_drain_nil, Script.run_drain_nil]
  exact ⟨rfl, ⟨_, _, htwin⟩, rfl⟩

/-- Twins take two lists that say the same, vector by vector. -/
theorem alike_draining_sameLines (htwin : Twin (some u) (some u') d d')
    (hclock : u'.pin sci = u.pin sci) (h : List.Forall₂ SameLines vs ws) :
    (draining d vs).Alike EndTwins (draining d' ws) := by
  induction h generalizing u u' d d' with
  | nil => exact alike_draining_nil htwin
  | cons hvw _ ih =>
    exact alike_draining_cons htwin hclock hvw fun _ _ htwin' => ih htwin' hvw.clock

/-- **A decoder needs no more than the edges**: a twin that is given them alone keeps up. -/
theorem alike_draining_edges (vs : List PinVector) (htwin : Twin (some u) (some u') d d')
    (hclock : u'.pin sci = u.pin sci) :
    (draining d vs).Alike EndTwins (draining d' (edges (u :: vs))) := by
  induction vs generalizing u u' d d' with
  | nil => exact alike_draining_nil htwin
  | cons v vs ih =>
    by_cases hv : v.pin sci = u.pin sci
    · obtain ⟨effects, hrun, hitems⟩ := draining_still (d := d) (v := v)
        (by simp [htwin.clock, hv]) (by simp [htwin.clock, hv]) vs
      rw [edges_still hv, hrun]
      exact (ih (htwin.saw_left hv) (hclock.trans hv.symm)).after_left hitems
    · rw [edges_edge (Bool.eq_not.2 hv)]
      exact alike_draining_cons htwin hclock (Std.Refl.refl v) fun _ _ htwin' => ih htwin' rfl

end Draining

/-! ## From the start -/

/-- A decoder that has taken no pin vector yet. -/
abbrev Decoder.fresh (name : String) (positions : Nat) : Decoder :=
  { name, config := ⟨positions⟩ }

/-- What can be seen of decoding a list of pin vectors: how it ends, the annotations, and the
context of the device it leaves. -/
def outcome (name : String) (positions : Nat) (vs : List PinVector) :
    Except Halt Unit × Array Annotation × Context :=
  let run := (Decoder.decode.run (Decoder.fresh name positions, vs)).play (#[] : Array Annotation)
  (run.result, run.sink, run.state.1.context)

section Outcome

variable {name : String} {positions : Nat} {u u' : PinVector} {vs ws : List PinVector}

theorem outcome_congr
    (h : (draining ((Decoder.fresh name positions).saw u) vs).Alike EndTwins
      (draining ((Decoder.fresh name positions).saw u') ws)) :
    outcome name positions (u :: vs) = outcome name positions (u' :: ws) := by
  have hfirst : ∀ v ws, ∃ effects, draining (.fresh name positions) (v :: ws) =
      (draining ((Decoder.fresh name positions).saw v) ws).after effects ∧
        effects.filterMap Effect.item? = [] :=
    fun v ws => draining_still (by simp) (by simp) ws
  obtain ⟨effects, hrun, hitems⟩ := hfirst u vs
  obtain ⟨effects', hrun', hitems'⟩ := hfirst u' ws
  obtain ⟨hresult, ⟨held, kept, htwin⟩, halike⟩ := h.after (hitems.trans hitems'.symm)
  rw [← hrun, ← hrun'] at hresult htwin halike
  simp only [outcome, Decoder.decode, Trace.play_array]
  rw [hresult, halike, htwin.same]

/-- Beside the clock level at the start, the edges are all that counts. -/
theorem outcome_cons (hclock : u'.pin sci = u.pin sci)
    (hedges : List.Forall₂ SameLines (edges (u :: vs)) (edges (u' :: ws))) :
    outcome name positions (u :: vs) = outcome name positions (u' :: ws) := by
  let d := Decoder.fresh name positions
  have hself : ∀ u, Decoder.Twin (some u) (some u) (d.saw u) (d.saw u) := fun _ => ⟨rfl, rfl, rfl⟩
  have htwin : Decoder.Twin (some u) (some u') (d.saw u) (d.saw u') :=
    ⟨rfl, rfl, by simp [Decoder.saw, hclock]⟩
  calc outcome name positions (u :: vs)
      = outcome name positions (u :: edges (u :: vs)) :=
        outcome_congr (alike_draining_edges vs (hself u) rfl)
    _ = outcome name positions (u' :: edges (u' :: ws)) :=
        outcome_congr (alike_draining_sameLines htwin hclock hedges)
    _ = outcome name positions (u' :: ws) :=
        (outcome_congr (alike_draining_edges ws (hself u') rfl)).symm

end Outcome

/-- **Only the clock edges count.**  Two lists that start with the same clock level, and whose clock
edges agree in time and in the four lines, decode with the same outcome.  So pins past the fourth
line are without effect, and so is a vector that leaves the clock as it was, be it a repetition or a
change of the data lines alone. -/
theorem outcome_edges (name : String) (positions : Nat) :
    (∀ vs ws : List PinVector,
      (vs.head?.map fun u => u.pin sci) = (ws.head?.map fun u => u.pin sci) →
      List.Forall₂ SameLines (edges vs) (edges ws) →
      outcome name positions vs = outcome name positions ws) ∧
    (∀ vs ws : List PinVector, List.Forall₂ SameLines vs ws →
      outcome name positions vs = outcome name positions ws) ∧
    ∀ (before : List PinVector) (u v : PinVector) (after : List PinVector),
      v.pin sci = u.pin sci →
      outcome name positions (before ++ u :: v :: after) =
        outcome name positions (before ++ u :: after) := by
  have hmain : ∀ vs ws : List PinVector,
      (vs.head?.map fun u => u.pin sci) = (ws.head?.map fun u => u.pin sci) →
      List.Forall₂ SameLines (edges vs) (edges ws) →
      outcome name positions vs = outcome name positions ws := by
    intro vs ws hfirst hedges
    match vs, ws with
    | [], [] => rfl
    | u :: vs, u' :: ws => exact outcome_cons (Option.some.inj hfirst).symm hedges
  refine ⟨hmain, fun vs ws h => hmain vs ws ?_ (edges_sameLines h), fun before u v after h => ?_⟩
  · cases h with
    | nil => rfl
    | cons hvw _ => exact congrArg some hvw.clock.symm
  · refine hmain _ _ (by cases before <;> rfl) ?_
    rw [edges_drop before h]
    exact List.forall₂_same.2 fun v _ => Std.Refl.refl v

/-- Against six vectors: other lines at the start, a change of SII and SDI while the clock is low, a
repetition and another change while it is high, and other high pins at an edge. -/
theorem outcome_edges_six :
    let vs : List PinVector := [⟨0, 0⟩, ⟨5, 1⟩, ⟨7, 0x11⟩, ⟨9, 0x18⟩, ⟨12, 0x11⟩, ⟨15, 0x14⟩]
    let ws : List PinVector := [⟨3, 0x8000⟩, ⟨4, 0x8006⟩, ⟨5, 1⟩, ⟨6, 1⟩, ⟨7, 3⟩, ⟨9, 8⟩,
      ⟨12, 0xFFF1⟩, ⟨15, 4⟩]
    let masked : List PinVector := vs.map fun v => ⟨v.time, v.pins &&& 0xF⟩
    (vs.head?.map fun u => u.pin sci) = (ws.head?.map fun u => u.pin sci) ∧
      List.Forall₂ SameLines (edges vs) (edges ws) ∧
      List.Forall₂ SameLines vs masked ∧
      outcome "avr_hvsp" 11 vs = outcome "avr_hvsp" 11 ws ∧
      outcome "avr_hvsp" 11 vs = outcome "avr_hvsp" 11 masked ∧
      outcome "avr_hvsp" 11 vs =
        outcome "avr_hvsp" 11 [⟨0, 0⟩, ⟨5, 1⟩, ⟨9, 0x18⟩, ⟨12, 0x11⟩, ⟨15, 0x14⟩] ∧
      (outcome "avr_hvsp" 11 ws).2.1 =
        #[⟨.bit, "sdo-bits", 5, 12, ["1"]⟩, ⟨.bit, "sdi-bits", 9, 15, ["0"]⟩] := by
  intro vs ws masked
  have hfirst : (vs.head?.map fun u => u.pin sci) = (ws.head?.map fun u => u.pin sci) := by decide
  have hedges : List.Forall₂ SameLines (edges vs) (edges ws) := by decide +kernel
  have hmasked : List.Forall₂ SameLines vs masked := by decide +kernel
  obtain ⟨hmain, hpins, hdrop⟩ := outcome_edges "avr_hvsp" 11
  refine ⟨hfirst, hedges, hmasked, hmain vs ws hfirst hedges, hpins vs masked hmasked, ?_, ?_⟩
  · exact hdrop [⟨0, 0⟩] ⟨5, 1⟩ ⟨7, 0x11⟩ [⟨9, 0x18⟩, ⟨12, 0x11⟩, ⟨15, 0x14⟩] (by decide)
  · decide +kernel

end Hvsp

end BusDecode
