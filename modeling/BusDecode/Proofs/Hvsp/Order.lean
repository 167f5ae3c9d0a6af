import BusDecode.Proofs.Hvsp.Framing
import BusDecode.Proofs.Rows

/-!
# Programming in the order of time

The decoder remembers five times: those of the last two edges, where the frame started, and where
the words on the inputs and on the output did.  Each row goes on from one of them (`mark`).  As long
as pin vectors come in the order of time, an edge moves no mark back, and what it says in a row
starts between the mark before it and the one after it (`Onward`).  It does not matter in which
frame a time was remembered, so all rows are in order for frames of any length (`decode_in_order`).
-/

set_option autoImplicit false

namespace BusDecode

namespace Hvsp

open Annotation (Ascending ascending_append)

namespace Decoder

open Script (Answers)

variable {ε : Type} {d d' d'' : Decoder} {v : PinVector} {n now : Nat} {xs ys : List Annotation}

/-! ## Marks -/

/-- The remembered time from which a row goes on; an edge that has not been yet counts as one at
zero. -/
def mark (d : Decoder) (row : String) : Nat :=
  if row = "sdo-bits" then d.riseTime.getD 0
  else if row = "sii-bits" ∨ row = "sdi-bits" then d.fallTime.getD 0
  else if row = "sdo" then d.outputStart
  else if row = "sii" ∨ row = "sdi" then d.inputStart
  else d.frameStart

/-- All that is remembered was before `now`, and each word started before the last edge at which one
of its lines was taken. -/
structure Timely (now : Nat) (d : Decoder) : Prop where
  rise : d.riseTime.getD 0 ≤ now
  fall : d.fallTime.getD 0 ≤ now
  frame : d.frameStart ≤ now
  output : d.outputStart ≤ d.riseTime.getD 0
  input : d.inputStart ≤ d.fallTime.getD 0

theorem Timely.mark_le (h : Timely now d) (row : String) : d.mark row ≤ now := by
  unfold mark
  split
  · exact h.rise
  split
  · exact h.fall
  split
  · exact Nat.le_trans h.output h.rise
  split
  · exact Nat.le_trans h.input h.fall
  · exact h.frame

/-- All the times that a decoder remembers. -/
def times (d : Decoder) : Option Nat × Option Nat × Nat × Nat × Nat :=
  (d.riseTime, d.fallTime, d.frameStart, d.inputStart, d.outputStart)

theorem mark_of_times (h : d'.times = d.times) (row : String) : d'.mark row = d.mark row := by
  simp only [times, Prod.mk.injEq] at h
  obtain ⟨hrise, hfall, hframe, hinput, houtput⟩ := h
  unfold mark
  rw [hrise, hfall, hframe, hinput, houtput]

theorem Timely.of_times (h : Timely now d) (ht : d'.times = d.times) : Timely now d' := by
  simp only [times, Prod.mk.injEq] at ht
  obtain ⟨hrise, hfall, hframe, hinput, houtput⟩ := ht
  constructor
  · rw [hrise]
    exact h.rise
  · rw [hfall]
    exact h.fall
  · rw [hframe]
    exact h.frame
  · rw [houtput, hrise]
    exact h.output
  · rw [hinput, hfall]
    exact h.input

theorem Timely.later (h : Timely now d) {t : Nat} (ht : now ≤ t) : Timely t d :=
  ⟨Nat.le_trans h.rise ht, Nat.le_trans h.fall ht, Nat.le_trans h.frame ht, h.output, h.input⟩

/-- Annotations of the way from one decoder to another one: no mark has gone back, and each row has
gone on from its mark to where that is now. -/
structure Onward (d d' : Decoder) (xs : List Annotation) : Prop where
  marks : ∀ row, d.mark row ≤ d'.mark row
  between : ∀ a ∈ xs, d.mark a.row ≤ a.start ∧ a.start ≤ d'.mark a.row
  forward : ∀ a ∈ xs, a.start ≤ a.stop
  ordered : ∀ row, Ascending row xs

namespace Onward

theorem nil (h : ∀ row, d.mark row ≤ d'.mark row) : Onward d d' [] :=
  ⟨h, nofun, nofun, fun _ => Annotation.ascending_nil⟩

theorem of_times (h : Onward d' d'' xs) (ht : d'.times = d.times) : Onward d d'' xs := by
  refine ⟨fun row => ?_, fun a ha => ?_, h.forward, h.ordered⟩
  · rw [← mark_of_times ht]
    exact h.marks row
  · rw [← mark_of_times ht]
    exact h.between a ha

theorem append (h : Onward d d' xs) (h' : Onward d' d'' ys) : Onward d d'' (xs ++ ys) where
  marks row := Nat.le_trans (h.marks row) (h'.marks row)
  between := by
    refine List.forall_mem_append.2 ⟨fun a ha => ?_, fun a ha => ?_⟩
    · obtain ⟨hlow, hhigh⟩ := h.between a ha
      exact ⟨hlow, Nat.le_trans hhigh (h'.marks a.row)⟩
    · obtain ⟨hlow, hhigh⟩ := h'.between a ha
      exact ⟨Nat.le_trans (h.marks a.row) hlow, hhigh⟩
  forward := List.forall_mem_append.2 ⟨h.forward, h'.forward⟩
  ordered row := by
    refine ascending_append.2 ⟨h.ordered row, h'.ordered row, ?_⟩
    intro a ha b hb harow hbrow
    have hup := (h.between a ha).2
    have hdown := (h'.between b hb).1
    rw [harow] at hup
    rw [hbrow] at hdown
    exact Nat.le_trans hup hdown

/-- An edge says all that it says in one row from one time on, and up to its own time. -/
theorem of_edge {start : String → Nat} (hd' : Timely now d')
    (hstart : ∀ row, d.mark row ≤ start row ∧ start row ≤ d'.mark row)
    (hxs : ∀ a ∈ xs, a.start = start a.row ∧ a.stop = now) : Onward d d' xs where
  marks row := Nat.le_trans (hstart row).1 (hstart row).2
  between a ha := by
    rw [(hxs a ha).1]
    exact hstart a.row
  forward a ha := by
    obtain ⟨hfrom, hto⟩ := hxs a ha
    rw [hfrom, hto]
    exact Nat.le_trans (hstart a.row).2 (hd'.mark_le a.row)
  ordered row := by
    refine List.pairwise_of_forall_mem_list fun a ha b hb harow hbrow => ?_
    rw [(hxs a ha).1, (hxs b hb).1, harow, hbrow]

end Onward

/-! ## Edges -/

/-- The time of an edge that has been, or else that of the one at hand. -/
theorem getD_between {edge : Option Nat} {t : Nat} (h : edge.getD 0 ≤ t) :
    edge.getD 0 ≤ edge.getD t ∧ edge.getD t ≤ t := by
  cases edge with
  | none => exact ⟨Nat.zero_le t, Nat.le_refl t⟩
  | some u => exact ⟨Nat.le_refl u, h⟩

theorem Timely.risen (h : Timely now d) (hv : now ≤ v.time) : Timely v.time (d.risen v n) := by
  obtain ⟨hlow, hhigh⟩ := getD_between (Nat.le_trans h.rise hv)
  have hframe := Nat.le_trans h.frame hv
  have houtput := Nat.le_trans (Nat.le_trans h.output hlow) hhigh
  refine ⟨Nat.le_refl _, Nat.le_trans h.fall hv, ?_, ?_, h.input⟩
  · change (if n = 0 then v.time else d.frameStart) ≤ v.time
    split
    · exact Nat.le_refl _
    · exact hframe
  · change (if n = 1 then d.riseTime.getD v.time else d.outputStart) ≤ v.time
    split
    · exact hhigh
    · exact houtput

/-- Where a rising edge says something in a row. -/
def riseStart (d d' : Decoder) (v : PinVector) (row : String) : Nat :=
  if row = "sdo-bits" then d.riseTime.getD v.time else d'.mark row

theorem start_riseItems {a : Annotation} (h : a ∈ riseItems d d' v n) :
    a.start = riseStart d d' v a.row ∧ a.stop = v.time := by
  unfold riseItems at h
  split at h
  · rcases List.mem_cons.1 h with rfl | hword
    · exact ⟨rfl, rfl⟩
    · split at hword
      · obtain rfl := List.mem_singleton.1 hword
        exact ⟨rfl, rfl⟩
      · cases hword
  · cases h

theorem riseStart_between (h : Timely now d) (hv : now ≤ v.time) (row : String) :
    d.mark row ≤ riseStart d (d.risen v n) v row ∧
      riseStart d (d.risen v n) v row ≤ (d.risen v n).mark row := by
  obtain ⟨hlow, hhigh⟩ := getD_between (Nat.le_trans h.rise hv)
  have hframe := Nat.le_trans h.frame hv
  have houtput := Nat.le_trans h.output hlow
  unfold riseStart
  split
  · subst row
    exact ⟨hlow, hhigh⟩
  · refine ⟨?_, Nat.le_refl _⟩
    simp only [mark, Decoder.risen]
    split_ifs <;> omega

theorem answers_rise_onward (h : Timely now d) (hv : now ≤ v.time) :
    Answers (rise v n : Handling ε Unit) d fun _ d' xs => Timely v.time d' ∧ Onward d d' xs := by
  apply answers_rise.mono
  intro _ d' xs hrisen
  obtain ⟨rfl, rfl⟩ := hrisen
  have hd' : Timely v.time (d.risen v n) := h.risen hv
  exact ⟨hd', .of_edge hd' (riseStart_between h hv) fun _ ha => start_riseItems ha⟩

theorem Timely.fallen (h : Timely now d) (hv : now ≤ v.time) : Timely v.time (d.fallen v n) := by
  obtain ⟨hlow, hhigh⟩ := getD_between (Nat.le_trans h.fall hv)
  have hinput := Nat.le_trans (Nat.le_trans h.input hlow) hhigh
  refine ⟨Nat.le_trans h.rise hv, Nat.le_refl _, Nat.le_trans h.frame hv, h.output, ?_⟩
  change (if n = 1 then d.fallTime.getD v.time else d.inputStart) ≤ v.time
  split
  · exact hhigh
  · exact hinput

/-- Where a falling edge says something in a row. -/
def fallStart (d d' : Decoder) (v : PinVector) (row : String) : Nat :=
  if row = "sii-bits" ∨ row = "sdi-bits" then d.fallTime.getD v.time else d'.mark row

theorem start_annotate (verdict : Verdict) (hframe : d'.frameStart = d.frameStart) :
    let a := verdict.annotate d.frameStart v.time
    a.start = fallStart d d' v a.row ∧ a.stop = v.time := by
  cases verdict <;> exact ⟨hframe.symm, rfl⟩

theorem start_fallItems (hframe : d'.frameStart = d.frameStart) {a : Annotation}
    (h : a ∈ fallItems d d' (d.fallTime.getD v.time) v.time n) :
    a.start = fallStart d d' v a.row ∧ a.stop = v.time := by
  unfold fallItems at h
  rcases List.mem_append.1 h with hinstr | hbits
  · split at hinstr
    · obtain rfl := List.mem_singleton.1 hinstr
      exact start_annotate _ hframe
    · cases hinstr
  · split at hbits
    · rcases List.mem_append.1 hbits with hline | hdata
      · obtain ⟨line, -, rfl⟩ := List.mem_map.1 hline
        exact ⟨rfl, rfl⟩
      · rcases List.mem_cons.1 hdata with rfl | hwords
        · exact ⟨rfl, rfl⟩
        · split at hwords
          · rcases List.mem_pair.1 hwords with rfl | rfl <;> exact ⟨rfl, rfl⟩
          · cases hwords
    · cases hbits

theorem fallStart_between (h : Timely now d) (hv : now ≤ v.time) (row : String) :
    d.mark row ≤ fallStart d (d.fallen v n) v row ∧
      fallStart d (d.fallen v n) v row ≤ (d.fallen v n).mark row := by
  obtain ⟨hlow, hhigh⟩ := getD_between (Nat.le_trans h.fall hv)
  have hinput := Nat.le_trans h.input hlow
  unfold fallStart
  split
  · rename_i hrow
    rcases hrow with rfl | rfl <;> exact ⟨hlow, hhigh⟩
  · refine ⟨?_, Nat.le_refl _⟩
    simp only [mark, Decoder.fallen, taken]
    split_ifs <;> omega

theorem answers_fall_onward (h : Timely now d) (hv : now ≤ v.time) :
    Answers (fall v : Handling ε Unit) d fun _ d' xs => Timely v.time d' ∧ Onward d d' xs := by
  cases hn : d.position with
  | none =>
    apply (answers_fall_before hn).mono
    intro _ d' xs hfallen
    obtain ⟨rfl, rfl⟩ := hfallen
    -- no row has gone on, but the marks of the bits on the inputs have
    have hfall := Nat.le_trans h.fall hv
    refine ⟨⟨Nat.le_trans h.rise hv, Nat.le_refl _, Nat.le_trans h.frame hv, h.output,
      Nat.le_trans h.input hfall⟩, .nil fun row => ?_⟩
    simp only [mark, Option.getD_some]
    split_ifs <;> omega
  | some n =>
    apply (answers_fall hn).mono
    intro _ d' xs hfallen
    obtain ⟨⟨count, hd'⟩, rfl⟩ := hfallen
    have htimes : d'.times = (d.fallen v n).times := by rw [hd']; rfl
    have hframe : d'.frameStart = d.frameStart := by rw [hd']; rfl
    have htimely : Timely v.time d' := (h.fallen hv).of_times htimes
    refine ⟨htimely, .of_edge htimely (fun row => ?_) fun _ ha => start_fallItems hframe ha⟩
    have hbetween := fallStart_between (n := n) h hv row
    unfold fallStart at hbetween ⊢
    rwa [mark_of_times htimes]

/-- **One pin vector** moves the marks on, and what is said of it goes from one to the next. -/
theorem answers_feed_onward (h : Timely now d) (hv : now ≤ v.time) :
    Answers (feed v : Handling ε Unit) d fun _ d' xs => Timely v.time d' ∧ Onward d d' xs := by
  have hstill : ∀ {d' : Decoder}, d'.times = d.times → Timely v.time d' ∧ Onward d d' [] := by
    intro d' ht
    refine ⟨(h.of_times ht).later hv, .nil fun row => ?_⟩
    rw [mark_of_times ht]
  have hedge : ∀ {d' : Decoder}, d'.times = d.times →
      Answers (clockEdge v : Handling ε Unit) d' fun _ d'' xs =>
        Timely v.time d'' ∧ Onward d d'' xs := by
    intro d' ht
    unfold clockEdge
    split
    · refine .bind (.read (.bind (.modify ?_)))
      have hopen : ({ d' with position := some d'.nextPosition } : Decoder).times = d.times := ht
      apply (answers_rise_onward (h.of_times hopen) hv).mono
      intro _ d'' xs hrise
      exact ⟨hrise.1, hrise.2.of_times hopen⟩
    · apply (answers_fall_onward (h.of_times ht) hv).mono
      intro _ d'' xs hfall
      exact ⟨hfall.1, hfall.2.of_times ht⟩
  unfold feed
  refine .bind (.read (.onlyIf (fun _ => ?_) fun _ => hstill rfl))
  exact .bind (.modify (.onlyIf (fun _ => hedge rfl) fun _ => hstill rfl))

/-! ## Runs -/

/-- **A whole run** does the same, if the pin vectors come in the order of time. -/
theorem answers_drain_onward (vs : List PinVector) (h : Timely now d)
    (hnow : ∀ v ∈ vs, now ≤ v.time) (hvs : vs.Pairwise fun u v => u.time ≤ v.time) :
    Answers (Script.drain feed) (d, vs) fun _ s xs => Onward d s.1 xs := by
  induction vs generalizing d now with
  | nil => exact .drain_nil (.nil fun _ => Nat.le_refl _)
  | cons v vs ih =>
    obtain ⟨hlater, hvs⟩ := List.pairwise_cons.1 hvs
    apply Answers.drain_cons
    apply (answers_feed_onward h (hnow v List.mem_cons_self)).mono
    intro _ d' xs hfed
    obtain ⟨hd', hfeed⟩ := hfed
    apply (ih hd' hlater hvs).mono
    intro _ s ys hrest
    exact hfeed.append hrest

end Decoder

/-- **All rows are in order.**  Whatever the length of a frame, a fresh decoder takes every list of
pin vectors whose times do not go back; it says nothing that stops before it starts, and in no row a
start time goes back. -/
theorem decode_in_order (name : String) (positions : Nat) (vs : List PinVector)
    (h : vs.Pairwise fun u v => u.time ≤ v.time) :
    let run := (Decoder.decode.run (({ name, config := ⟨positions⟩ } : Decoder), vs)).play
      (#[] : Array Annotation)
    run.result = .ok () ∧ (∀ a ∈ run.sink.toList, a.start ≤ a.stop) ∧
      ∀ row, Ascending row run.sink.toList := by
  have hfresh : Decoder.Timely 0 { name, config := ⟨positions⟩ } :=
    ⟨Nat.le_refl 0, Nat.le_refl 0, Nat.le_refl 0, Nat.le_refl 0, Nat.le_refl 0⟩
  obtain ⟨_, s, xs, events, hplayed, honward⟩ :=
    (Decoder.answers_drain_onward vs hfresh (fun v _ => Nat.zero_le v.time) h).played #[]
  intro run
  have hrun : run = ⟨.ok (), s, #[] ++ xs.toArray, events⟩ := hplayed
  have hsink : run.sink.toList = xs := by simp [hrun]
  rw [hsink]
  exact ⟨congrArg Played.result hrun, honward.forward, honward.ordered⟩

/-- Frames of three positions and edges at one and the same time: the instructions are those of
words that no frame has finished. -/
theorem decode_in_order_three :
    let vs := List.zipWith PinVector.mk [0, 2, 2, 5, 6, 6, 9, 12, 13, 13, 14, 14, 20]
      [0, 3, 8, 7, 0, 1, 2, 1, 8, 5, 0, 1, 0]
    vs.Pairwise (fun u v => u.time ≤ v.time) ∧
      let run := (Decoder.decode.run ({ config := ⟨3⟩ }, vs)).play (#[] : Array Annotation)
      run.sink.toList.filter Annotation.isWarning =
          [.warning 2 9 "Invalid WR", .warning 12 20 "Invalid WR"] ∧
        (∀ a ∈ run.sink.toList, a.start ≤ a.stop) ∧ ∀ row, Ascending row run.sink.toList := by
  intro vs
  have h : vs.Pairwise fun u v => u.time ≤ v.time := by decide
  obtain ⟨-, hforward, hrows⟩ := decode_in_order "avr_hvsp" 3 vs h
  refine ⟨h, ?_, hforward, hrows⟩
  rw [(played_told (by decide : 3 ≤ 3) vs).2.1]
  decide +kernel

end Hvsp

end BusDecode
