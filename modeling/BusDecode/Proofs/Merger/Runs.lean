import BusDecode.Proofs.Merger
import Mathlib.Algebra.Order.BigOperators.Group.List
import Mathlib.Algebra.Order.Ring.Nat

/-!
# Runs of the merger

What a merger answers when it is asked again and again, for lines of any lengths and in any order.
A run is the list of pin vectors that one step after the other gives (`Run`), and there is one for
any lines, since each step takes a sample (`exists_run`).  What holds of all its vectors follows by
induction on the run from what a step leaves of a line, `past`: a later step finds the rest of the
samples that the whole line has up to its time (`levelBy_past`), and of the times at which a line
gets further (`Reaches`) those after the step (`reaches_past_iff`).

Called on a fresh merger, `next` answers with the vectors of a run and then with the end for ever
(`next_merges`).
-/

set_option autoImplicit false

namespace BusDecode

namespace Merger

/-! ## What a step leaves of a line -/

section Line

variable {time t : Nat} {xs : List Sample} {lines : List (List Sample)}

/-- A line gets further at a time: it has a sample then, and only earlier ones before it. -/
def Reaches (t : Nat) : List Sample → Prop
  | [] => False
  | x :: xs => x.time = t ∨ x.time < t ∧ Reaches t xs

theorem past_cons_of_le {x : Sample} (h : x.time ≤ time) : past time (x :: xs) = past time xs :=
  List.dropWhile_cons_of_pos (by simpa using h)

theorem past_cons_of_lt {x : Sample} (h : time < x.time) : past time (x :: xs) = x :: xs :=
  List.dropWhile_cons_of_neg (by simpa using h)

/-- A line in order gets further at each of its samples. -/
theorem reaches_iff_mem (hsorted : (xs.map Sample.time).Pairwise (· ≤ ·)) :
    Reaches t xs ↔ ∃ x ∈ xs, x.time = t := by
  induction xs with
  | nil => simp [Reaches]
  | cons x xs ih =>
    rw [List.map_cons, List.pairwise_cons] at hsorted
    rw [Reaches, ih hsorted.2, List.exists_mem_cons_iff]
    refine or_congr_right' fun hx => and_iff_right_of_imp fun ⟨y, hy, hyt⟩ => ?_
    exact Nat.lt_of_le_of_ne (hyt ▸ hsorted.1 _ (List.mem_map_of_mem hy)) hx

/-- The times at which the rest of a line gets further are those after the step. -/
theorem reaches_past_iff : Reaches t (past time xs) ↔ time < t ∧ Reaches t xs := by
  induction xs with
  | nil => simp [past, Reaches]
  | cons x xs ih =>
    by_cases hx : x.time ≤ time
    · rw [past_cons_of_le hx, ih, Reaches]
      refine and_congr_right fun ht => ?_
      have hlt : x.time < t := Nat.lt_of_le_of_lt hx ht
      simp [hlt, Nat.ne_of_lt hlt]
    · have hx : time < x.time := Nat.lt_of_not_le hx
      rw [past_cons_of_lt hx]
      refine (and_iff_right_of_imp fun h => ?_).symm
      rcases h with rfl | ⟨hlt, _⟩
      · exact hx
      · exact Nat.lt_trans hx hlt

/-- The samples of a line up to a time are those that an earlier step takes and those up to then of
what it leaves. -/
theorem upTo_past (h : time ≤ t) : upTo t xs = upTo time xs ++ upTo t (past time xs) := by
  induction xs with
  | nil => rfl
  | cons x xs ih =>
    by_cases hx : x.time ≤ time
    · have ht : x.time ≤ t := Nat.le_trans hx h
      simpa [upTo, past, hx, ht] using ih
    · simp [upTo, past, hx]

theorem levelBy_past (h : time ≤ t) :
    levelBy t xs = (levelBy t (past time xs)).or (levelBy time xs) := by
  rw [levelBy, upTo_past h, List.getLast?_append, levelBy, levelBy]
  cases (upTo t (past time xs)).getLast? <;> rfl

/-- The earliest sample waiting is the first of a line. -/
theorem exists_head (h : (headTimes lines).min? = some time) :
    ∃ x xs, x :: xs ∈ lines ∧ x.time = time := by
  obtain ⟨xs, hxs, hhead⟩ := List.mem_filterMap.1 (List.min?_mem h)
  obtain ⟨x, hx, hxt⟩ := Option.map_eq_some_iff.1 hhead
  obtain ⟨rest, rfl⟩ := List.head?_eq_some_iff.1 hx
  exact ⟨x, rest, hxs, hxt⟩

/-- No line gets further before the earliest sample waiting. -/
theorem le_of_reaches (h : (headTimes lines).min? = some time) (hxs : xs ∈ lines)
    (hreach : Reaches t xs) : time ≤ t := by
  cases xs with
  | nil => cases hreach
  | cons x xs =>
    have hle : time ≤ x.time :=
      (List.min?_eq_some_iff.1 h).2 _ (List.mem_filterMap.2 ⟨_, hxs, rfl⟩)
    rcases hreach with rfl | ⟨hlt, _⟩
    · exact hle
    · exact Nat.le_trans hle (Nat.le_of_lt hlt)

/-- The step at the earliest sample takes at least that one. -/
theorem sum_length_past_lt (h : (headTimes lines).min? = some time) :
    ((lines.map (past time)).map List.length).sum < (lines.map List.length).sum := by
  obtain ⟨x, xs, hxs, hx⟩ := exists_head h
  rw [List.map_map]
  refine List.sum_lt_sum _ _ (fun ys _ => (List.dropWhile_sublist _).length_le) ⟨_, hxs, ?_⟩
  rw [Function.comp_apply, past_cons_of_le (Nat.le_of_eq hx), List.length_cons]
  exact Nat.lt_succ_of_le (List.dropWhile_sublist _).length_le

/-- If no sample is waiting, the lines are empty. -/
theorem eq_nil_of_headTimes (h : headTimes lines = []) : lines = lines.map fun _ => [] := by
  refine (List.map_id'' (fun _ => rfl) lines).symm.trans (List.map_congr_left fun xs hxs => ?_)
  cases xs with
  | nil => rfl
  | cons x xs => cases List.filterMap_eq_nil_iff.1 h _ hxs

end Line

/-- A step leaves each pin at the level of its line; pins that no line belongs to stay. -/
theorem testBit_settle_all (time : Nat) (pins : UInt16) {lines : List (List Sample)}
    (hlines : lines.length ≤ 16) (n : Nat) :
    (settle time 0 pins lines).toNat.testBit n =
      (lines[n]?.bind (levelBy time)).getD (pins.toNat.testBit n) := by
  by_cases hn : n < 16
  · simpa using testBit_settle hn time 0 pins lines (by simpa using hlines)
  · have hn : 16 ≤ n := Nat.le_of_not_lt hn
    rw [List.getElem?_eq_none (Nat.le_trans hlines hn), PinVector.testBit_high hn,
      PinVector.testBit_high hn]
    rfl

/-! ## Runs -/

/-- A merger with these pins gives these vectors, step by step, until no sample is waiting. -/
inductive Run : UInt16 → List (List Sample) → List PinVector → Prop
  | done {pins : UInt16} {lines : List (List Sample)} : headTimes lines = [] → Run pins lines []
  | step {pins : UInt16} {lines : List (List Sample)} {time : Nat} {vs : List PinVector} :
    (headTimes lines).min? = some time →
    Run (settle time 0 pins lines) (lines.map (past time)) vs →
    Run pins lines (⟨time, settle time 0 pins lines⟩ :: vs)

/-- Any lines are used up after some number of steps. -/
theorem exists_run (pins : UInt16) (lines : List (List Sample)) : ∃ vs, Run pins lines vs := by
  induction hsize : (lines.map List.length).sum using Nat.strong_induction_on
    generalizing pins lines with
  | _ size ih =>
    cases hmin : (headTimes lines).min? with
    | none => exact ⟨[], .done (List.min?_eq_none_iff.1 hmin)⟩
    | some time =>
      obtain ⟨vs, hvs⟩ := ih _ (hsize ▸ sum_length_past_lt hmin)
        (settle time 0 pins lines) (lines.map (past time)) rfl
      exact ⟨_, .step hmin hvs⟩

namespace Run

variable {pins : UInt16} {lines : List (List Sample)} {vs : List PinVector}

/-- The first vector stands at the earliest sample. -/
theorem head_time (h : Run pins lines vs) :
    vs.head?.map PinVector.time = (headTimes lines).min? := by
  cases h with
  | done hnone => rw [hnone]; rfl
  | step hmin _ => exact hmin.symm

/-- The vectors stand at the times at which a line gets further. -/
theorem mem_times (h : Run pins lines vs) (t : Nat) :
    t ∈ vs.map PinVector.time ↔ ∃ xs ∈ lines, Reaches t xs := by
  induction h with
  | @done _ lines hnone =>
    rw [eq_nil_of_headTimes hnone]
    simp [Reaches]
  | @step pins lines time vs hmin _ ih =>
    have hrest : t ∈ vs.map PinVector.time ↔ time < t ∧ ∃ xs ∈ lines, Reaches t xs := by
      simp [ih, reaches_past_iff, and_left_comm]
    rw [List.map_cons, List.mem_cons, hrest]
    constructor
    · intro h
      rcases h with rfl | ⟨_, h⟩
      · obtain ⟨x, xs, hxs, hx⟩ := exists_head hmin
        exact ⟨_, hxs, .inl hx⟩
      · exact h
    · intro ⟨xs, hxs, hreach⟩
      rcases Nat.eq_or_lt_of_le (le_of_reaches hmin hxs hreach) with rfl | hlt
      · exact .inl rfl
      · exact .inr ⟨hlt, xs, hxs, hreach⟩

/-- What comes after a step is later. -/
theorem lt_time {time : Nat} (h : Run pins (lines.map (past time)) vs) :
    ∀ v ∈ vs, time < v.time := by
  intro v hv
  obtain ⟨ys, hys, hreach⟩ := (h.mem_times v.time).1 (List.mem_map_of_mem hv)
  obtain ⟨xs, _, rfl⟩ := List.mem_map.1 hys
  exact (reaches_past_iff.1 hreach).1

theorem rising (h : Run pins lines vs) : (vs.map PinVector.time).Pairwise (· < ·) := by
  induction h with
  | done => exact .nil
  | step _ hvs ih =>
    refine List.pairwise_cons.2 ⟨fun t ht => ?_, ih⟩
    obtain ⟨v, hv, rfl⟩ := List.mem_map.1 ht
    exact hvs.lt_time v hv

/-- A vector has each pin at the level of its line, and as it was before the run as long as the
line has no sample. -/
theorem pin_eq (h : Run pins lines vs) (hlines : lines.length ≤ 16) {v : PinVector} (hv : v ∈ vs)
    (n : Nat) : v.pin n = (lines[n]?.bind (levelBy v.time)).getD (pins.toNat.testBit n) := by
  induction h with
  | done => cases hv
  | @step pins lines time vs _ hvs ih =>
    have hsettle := testBit_settle_all time pins hlines n
    rcases List.mem_cons.1 hv with rfl | hv
    · exact hsettle
    · rw [ih (by simpa using hlines) hv, hsettle, List.getElem?_map]
      cases lines[n]? with
      | none => rfl
      | some xs =>
        have hlevel : levelBy v.time xs = (levelBy v.time (past time xs)).or (levelBy time xs) :=
          levelBy_past (Nat.le_of_lt (hvs.lt_time v hv))
        simp only [Option.map_some, Option.bind_some, hlevel]
        cases levelBy v.time (past time xs) <;> rfl

end Run

/-! ## Calls of a merger -/

section Calls

variable {σ : Type} [Source σ Sample]

/-- The merger and its lines after a number of calls. -/
def after : Nat → Merger → List σ → Merger × List σ
  | 0, m, lines => (m, lines)
  | k + 1, m, lines => after k (m.next lines).2.1 (m.next lines).2.2.1

/-- What the merger answers to a call, after a number of others. -/
def answer (k : Nat) (m : Merger) (lines : List σ) : Except Halt PinVector :=
  ((after k m lines).1.next (after k m lines).2).1

variable {K : σ → List Sample → Prop} (hK : Source.Alike K) {lines : List σ} {pins : UInt16}
  {xss : List (List Sample)} {vs : List PinVector}
include hK

/-- A merger whose lines are used up says at each call that this is the end, and changes nothing. -/
theorem calls_done (m : Merger) (hlines : List.Forall₂ K lines xss) (hnone : headTimes xss = [])
    (k : Nat) :
    answer k m lines = .error .endOfStream ∧ List.Forall₂ K (after k m lines).2 xss := by
  induction k generalizing lines with
  | zero =>
    obtain ⟨lines', events, hnext, _⟩ := next_reads_end hK m hlines hnone
    exact ⟨congrArg Prod.fst hnext, hlines⟩
  | succ k ih =>
    obtain ⟨lines', events, hnext, hlines'⟩ := next_reads_end hK m hlines hnone
    rw [answer, after, hnext]
    exact ih hlines'

/-- The calls of a merger give a run, vector by vector, and then the end. -/
theorem Run.calls (h : Run pins xss vs) (hlines : List.Forall₂ K lines xss) (k : Nat) :
    answer k ⟨pins⟩ lines = vs[k]?.elim (.error .endOfStream) .ok ∧
      (vs.length ≤ k → List.Forall₂ K (after k ⟨pins⟩ lines).2 (xss.map fun _ => [])) := by
  induction h generalizing lines k with
  | @done pins xss hnone =>
    obtain ⟨hanswer, hlines'⟩ := calls_done hK ⟨pins⟩ hlines hnone k
    rw [← eq_nil_of_headTimes hnone]
    exact ⟨hanswer, fun _ => hlines'⟩
  | @step pins xss time vs hmin _ ih =>
    obtain ⟨lines', events, hnext, hlines'⟩ := next_reads hK ⟨pins⟩ hlines hmin
    cases k with
    | zero => exact ⟨congrArg Prod.fst hnext, fun hk => absurd hk (Nat.not_succ_le_zero _)⟩
    | succ k =>
      obtain ⟨hanswer, hend⟩ := ih hlines' k
      rw [answer, after, hnext]
      rw [List.map_map] at hend
      exact ⟨hanswer, fun hk => hend (Nat.le_of_succ_le_succ hk)⟩

end Calls

/-- **The merger orders its lines in time.**  Asked again and again, a fresh merger answers with
finitely many vectors and then says for ever that this is the end, its lines used up.  The vectors
follow each other in time, from the earliest first sample of a line on, and each of them has a pin
at the last level that its line has up to then, or low.  If the lines are in order, there is a
vector at the time of each sample and no other. -/
theorem next_merges (lines : List (List Sample)) (hlines : lines.length ≤ 16) :
    ∃ vs : List PinVector,
      (∀ k, answer k {} lines = vs[k]?.elim (.error .endOfStream) .ok) ∧
      (∀ k, vs.length ≤ k → (after k {} lines).2 = lines.map fun _ => []) ∧
      (vs.map PinVector.time).Pairwise (· < ·) ∧
      vs.head?.map PinVector.time = (headTimes lines).min? ∧
      (∀ v ∈ vs, ∀ n, v.pin n = (lines[n]?.bind (levelBy v.time)).getD false) ∧
      ((∀ xs ∈ lines, (xs.map Sample.time).Pairwise (· ≤ ·)) →
        ∀ t, t ∈ vs.map PinVector.time ↔ ∃ xs ∈ lines, ∃ x ∈ xs, x.time = t) := by
  obtain ⟨vs, hrun⟩ := exists_run 0 lines
  have hcalls := hrun.calls Source.alike_eq (List.forall₂_same.2 fun xs _ => Eq.refl xs)
  refine ⟨vs, fun k => (hcalls k).1, fun k hk => ?_, hrun.rising, hrun.head_time,
    fun v hv n => ?_, fun hsorted t => ?_⟩
  · rw [← List.forall₂_eq_eq_eq]
    exact (hcalls k).2 hk
  · simpa using hrun.pin_eq hlines hv n
  · rw [hrun.mem_times]
    exact exists_congr fun xs => and_congr_right fun hxs => reaches_iff_mem (hsorted xs hxs)

/-- Two samples at one time and one that comes too late in its line. -/
theorem next_merges_late :
    ∃ v, answer 0 {} [[⟨2, true⟩, ⟨2, false⟩, ⟨9, true⟩], [⟨4, true⟩, ⟨1, false⟩]] = .ok v ∧
      v.time = 2 ∧ v.pin 0 = false ∧ v.pin 1 = false := by
  obtain ⟨vs, hanswer, _, _, hfirst, hpin, _⟩ :=
    next_merges [[⟨2, true⟩, ⟨2, false⟩, ⟨9, true⟩], [⟨4, true⟩, ⟨1, false⟩]] (by decide)
  obtain ⟨v, hv, htime⟩ := Option.map_eq_some_iff.1 hfirst
  obtain ⟨rest, rfl⟩ := List.head?_eq_some_iff.1 hv
  refine ⟨v, hanswer 0, htime, ?_, ?_⟩
  · rw [hpin v List.mem_cons_self, htime]
    rfl
  · rw [hpin v List.mem_cons_self, htime]
    rfl

end Merger

end BusDecode
