import BusDecode.Merger
import BusDecode.Proofs.Source
import Mathlib.Data.List.Forall2
import Mathlib.Data.List.TakeWhile

/-!
# Merging, read off the lines

What a step of the merger does, for lines that read as lists.  Its time is the earliest time at
which a line has a sample; each line loses its samples up to that time, and the last of them gives
the level of its pin (`next_reads`, `testBit_settle`).

Lines that were split off pin vectors are merged back to those of the vectors that changed a line
(`next_split`): the others left no sample behind.
-/

set_option autoImplicit false

namespace BusDecode

namespace PinVector

/-- Replacing the level of one line leaves the others. -/
theorem testBit_setPin {pins : UInt16} {line n : Nat} (hline : line < 16) (hn : n < 16)
    (level : Bool) :
    (setPin pins line level).toNat.testBit n =
      if n = line then level else pins.toNat.testBit n := by
  have hmask : ((1 : UInt16) <<< UInt16.ofNat line).toNat = 2 ^ line := by
    have hbit : 2 ^ line < 65536 := Nat.pow_lt_pow_right (by decide) hline
    simp [UInt16.toNat_shiftLeft, Nat.shiftLeft_eq, Nat.mod_eq_of_lt hbit, Nat.mod_eq_of_lt hline,
      Nat.mod_eq_of_lt (Nat.lt_trans hline (by decide : 16 < 65536))]
  unfold setPin
  cases level with
  | true =>
    rw [if_pos rfl, UInt16.toNat_or, Nat.testBit_or, hmask, Nat.testBit_two_pow]
    by_cases h : n = line
    · simp [h]
    · simp [h, Ne.symm h]
  | false =>
    have hrest : UInt16.size - 1 - 2 ^ line = 2 ^ 16 - (2 ^ line + 1) := by
      rw [UInt16.size]
      omega
    rw [if_neg Bool.false_ne_true, UInt16.toNat_and, Nat.testBit_and, UInt16.toNat_not, hmask,
      hrest, Nat.testBit_two_pow_sub_succ (Nat.pow_lt_pow_right (by decide) hline),
      Nat.testBit_two_pow]
    by_cases h : n = line
    · simp [h]
    · simp [h, hn, Ne.symm h]

/-- There are no lines behind the sixteenth. -/
theorem testBit_high {n : Nat} (hn : 16 ≤ n) (pins : UInt16) : pins.toNat.testBit n = false :=
  Nat.testBit_lt_two_pow (Nat.lt_of_lt_of_le pins.toNat_lt (Nat.pow_le_pow_right Nat.two_pos hn))

end PinVector

namespace Merger

/-! ## Lines as lists -/

/-- The samples of a line that a step of the merger at a time applies. -/
def upTo (time : Nat) (xs : List Sample) : List Sample :=
  xs.takeWhile fun x => x.time ≤ time

/-- The samples of a line that a step of the merger at a time leaves. -/
def past (time : Nat) (xs : List Sample) : List Sample :=
  xs.dropWhile fun x => x.time ≤ time

/-- The level that a line has at a time, if it has any sample up to then. -/
def levelBy (time : Nat) (xs : List Sample) : Option Bool :=
  (upTo time xs).getLast?.map Sample.level

/-- The times of the samples that the lines have waiting. -/
def headTimes (xss : List (List Sample)) : List Nat :=
  xss.filterMap fun xs => xs.head?.map Sample.time

/-- Pins after the samples of a line. -/
def apply (line : Nat) (pins : UInt16) (xs : List Sample) : UInt16 :=
  xs.foldl (fun pins x => PinVector.setPin pins line x.level) pins

/-- Pins after the samples of all lines up to a time, the first line being number `line`. -/
def settle (time : Nat) : Nat → UInt16 → List (List Sample) → UInt16
  | _, pins, [] => pins
  | line, pins, xs :: xss => settle time (line + 1) (apply line pins (upTo time xs)) xss

theorem earlier_min? (xs : List Sample) (xss : List (List Sample)) :
    earlier (xs.head?.map Sample.time) (headTimes xss).min? = (headTimes (xs :: xss)).min? := by
  cases xs with
  | nil => rfl
  | cons x xs =>
    have hcons : headTimes ((x :: xs) :: xss) = x.time :: headTimes xss := rfl
    rw [hcons, List.min?_cons]
    cases (headTimes xss).min? <;> rfl

theorem testBit_apply {line n : Nat} (hline : line < 16) (hn : n < 16) (pins : UInt16)
    (xs : List Sample) :
    (apply line pins xs).toNat.testBit n =
      if n = line then (xs.getLast?.map Sample.level).getD (pins.toNat.testBit n)
      else pins.toNat.testBit n := by
  induction xs generalizing pins with
  | nil => simp [apply]
  | cons x xs ih =>
    change (apply line (PinVector.setPin pins line x.level) xs).toNat.testBit n = _
    rw [ih, PinVector.testBit_setPin hline hn, List.getLast?_cons]
    by_cases h : n = line
    · cases xs.getLast? <;> simp [h]
    · simp [h]

theorem testBit_settle {n : Nat} (hn : n < 16) (time line : Nat) (pins : UInt16)
    (xss : List (List Sample)) (hlen : line + xss.length ≤ 16) :
    (settle time line pins xss).toNat.testBit n =
      (if line ≤ n then xss[n - line]?.bind (levelBy time) else none).getD
        (pins.toNat.testBit n) := by
  induction xss generalizing line pins with
  | nil => simp [settle]
  | cons xs xss ih =>
    rw [List.length_cons] at hlen
    rw [settle, ih _ _ (by omega), testBit_apply (by omega) hn]
    rcases Nat.lt_trichotomy n line with hlt | rfl | hgt
    · simp [Nat.not_le.2 hlt, Nat.not_le.2 (Nat.lt_succ_of_lt hlt), Nat.ne_of_lt hlt]
    · rw [if_neg (Nat.not_succ_le_self n), Option.getD_none]
      simp [levelBy]
    · have hsub : n - line = n - (line + 1) + 1 := by omega
      simp [Nat.succ_le_of_lt hgt, Nat.le_of_lt hgt, Nat.ne_of_gt hgt, hsub]

/-! ## Reading -/

section Reading

/-- A line is drained sample by sample. -/
theorem drainLine_eq {σ : Type} [Source σ Sample] (line time : Nat) (pins : UInt16) (s : σ)
    (told : List Event) :
    drainLine line time pins s told =
      match headTime s with
      | (.error e, s', events) => (.error e, pins, s', told ++ events)
      | (.ok none, s', events) => (.ok (), pins, s', told ++ events)
      | (.ok (some t), s', events) =>
        if time < t then (.ok (), pins, s', told ++ events) else
        match Source.recv s' with
        | (.error e, s'') => (.error e, pins, s'', told ++ events)
        | (.ok x, s'') =>
          drainLine line time (PinVector.setPin pins line x.level) s'' (told ++ events) := by
  rw [drainLine]
  split
  · rename_i hhead
    simp only [hhead]
  · rename_i hhead
    simp only [hhead]
  · rename_i hhead
    simp only [hhead]
    split
    · rfl
    · split <;> rename_i hr <;> simp only [hr]

variable {σ : Type} [Source σ Sample] {K : σ → List Sample → Prop} (hK : Source.Alike K)
  {s : σ} {xs : List Sample} {lines : List σ} {xss : List (List Sample)}
include hK

theorem headTime_reads (h : K s xs) :
    ∃ s' events, headTime s = (.ok (xs.head?.map Sample.time), s', events) ∧ K s' xs := by
  obtain ⟨hresult, hrel⟩ := hK.peek? h
  have hevents := hK.takeEvents _ _ hrel
  refine ⟨_, _, Prod.ext ?_ rfl, ?_⟩
  · change (Source.peek? s).1.map _ = _
    rw [hresult]
    cases xs <;> rfl
  · cases xs <;> exact hevents

theorem earliest_reads (h : List.Forall₂ K lines xss) :
    ∃ lines' events, earliest lines = (.ok (headTimes xss).min?, lines', events) ∧
      List.Forall₂ K lines' xss := by
  induction h with
  | nil => exact ⟨_, _, rfl, .nil⟩
  | @cons s xs lines xss h _ ih =>
    obtain ⟨s', events, hhead, hs'⟩ := headTime_reads hK h
    obtain ⟨lines', events', hrest, hlines'⟩ := ih
    refine ⟨s' :: lines', events ++ events', ?_, .cons hs' hlines'⟩
    rw [earliest, hhead]
    dsimp only
    rw [hrest]
    exact congrArg (fun t => (Except.ok t, s' :: lines', events ++ events')) (earlier_min? xs xss)

theorem drainLine_reads (line time : Nat) (pins : UInt16) (told : List Event) (h : K s xs) :
    ∃ s' events, drainLine line time pins s told =
        (.ok (), apply line pins (upTo time xs), s', events) ∧ K s' (past time xs) := by
  induction xs generalizing s pins told with
  | nil =>
    obtain ⟨s', events, hhead, hs'⟩ := headTime_reads hK h
    refine ⟨s', told ++ events, ?_, hs'⟩
    rw [drainLine_eq, hhead]
    rfl
  | cons x xs ih =>
    obtain ⟨s', events, hhead, hs'⟩ := headTime_reads hK h
    rw [drainLine_eq, hhead]
    dsimp only [List.head?_cons, Option.map_some]
    by_cases hx : x.time ≤ time
    · obtain ⟨hresult, hrel⟩ := hK.recv _ _ hs'
      rw [if_neg (Nat.not_lt.2 hx), upTo, past, List.takeWhile_cons_of_pos (by simpa using hx),
        List.dropWhile_cons_of_pos (by simpa using hx)]
      generalize Source.recv s' = received at hresult hrel ⊢
      obtain ⟨r, s''⟩ := received
      obtain rfl : r = .ok x := hresult
      exact ih _ _ hrel
    · rw [if_pos (Nat.lt_of_not_le hx), upTo, past, List.takeWhile_cons_of_neg (by simpa using hx),
        List.dropWhile_cons_of_neg (by simpa using hx)]
      exact ⟨_, _, rfl, hs'⟩

theorem drain_reads (time line : Nat) (pins : UInt16) (h : List.Forall₂ K lines xss) :
    ∃ lines' events, drain time line pins lines =
        (.ok (), settle time line pins xss, lines', events) ∧
      List.Forall₂ K lines' (xss.map (past time)) := by
  induction h generalizing line pins with
  | nil => exact ⟨_, _, rfl, .nil⟩
  | @cons s xs lines xss h _ ih =>
    obtain ⟨s', events, hline, hs'⟩ := drainLine_reads hK line time pins [] h
    obtain ⟨lines', events', hrest, hlines'⟩ := ih (line + 1) (apply line pins (upTo time xs))
    refine ⟨s' :: lines', events ++ events', ?_, .cons hs' hlines'⟩
    rw [drain, hline]
    dsimp only
    rw [hrest]
    rfl

/-- **A step of the merger**, read off its lines: the pins as they are at the earliest time at which
a sample waits. -/
theorem next_reads (m : Merger) (h : List.Forall₂ K lines xss) {time : Nat}
    (htime : (headTimes xss).min? = some time) :
    ∃ lines' events, m.next lines =
        (.ok ⟨time, settle time 0 m.pins xss⟩, ⟨settle time 0 m.pins xss⟩, lines', events) ∧
      List.Forall₂ K lines' (xss.map (past time)) := by
  obtain ⟨lines', events, hearliest, hlines'⟩ := earliest_reads hK h
  obtain ⟨lines'', events', hdrain, hlines''⟩ := drain_reads hK time 0 m.pins hlines'
  refine ⟨lines'', events ++ events', ?_, hlines''⟩
  rw [next, hearliest, htime]
  dsimp only
  rw [hdrain]
  rfl

/-- Once no line has a sample waiting, the merger has come to the end, and nothing changes. -/
theorem next_reads_end (m : Merger) (h : List.Forall₂ K lines xss) (hnone : headTimes xss = []) :
    ∃ lines' events, m.next lines = (.error .endOfStream, m, lines', events) ∧
      List.Forall₂ K lines' xss := by
  obtain ⟨lines', events, hearliest, hlines'⟩ := earliest_reads hK h
  refine ⟨lines', events, ?_, hlines'⟩
  rw [next, hearliest, hnone]
  rfl

end Reading

end Merger

/-! ## Lines split off pin vectors -/

namespace PinVector

/-- What a line is recorded as, once it was at `level`: a sample for each vector that changes it. -/
def changes (line : Nat) : Option Bool → List PinVector → List Sample
  | _, [] => []
  | level, v :: vs =>
    if level = some (v.pin line) then changes line level vs
    else ⟨v.time, v.pin line⟩ :: changes line (some (v.pin line)) vs

/-- A line of a capture: its first level and every change. -/
def lineOf (line : Nat) (vs : List PinVector) : List Sample :=
  changes line none vs

/-- The first lines of a capture as they go on after a pin vector, or from the beginning. -/
def split (count : Nat) (held : Option PinVector) (vs : List PinVector) : List (List Sample) :=
  (List.range count).map fun line => changes line (held.map fun u => u.pin line) vs

theorem changes_cons_same {line : Nat} {level : Option Bool} {v : PinVector}
    (h : level = some (v.pin line)) (vs : List PinVector) :
    changes line level (v :: vs) = changes line (some (v.pin line)) vs := by
  rw [changes, if_pos h, h]

theorem changes_cons_other {line : Nat} {level : Option Bool} {v : PinVector}
    (h : level ≠ some (v.pin line)) (vs : List PinVector) :
    changes line level (v :: vs) = ⟨v.time, v.pin line⟩ :: changes line (some (v.pin line)) vs := by
  rw [changes, if_neg h]

/-- Every sample of a line stands at the time of a vector. -/
theorem time_changes {line : Nat} {level : Option Bool} {vs : List PinVector} {x : Sample}
    (h : x ∈ changes line level vs) : ∃ v ∈ vs, x.time = v.time := by
  induction vs generalizing level with
  | nil => cases h
  | cons v vs ih =>
    by_cases hv : level = some (v.pin line)
    · rw [changes_cons_same hv] at h
      obtain ⟨u, hu, hx⟩ := ih h
      exact ⟨u, List.mem_cons_of_mem _ hu, hx⟩
    · rw [changes_cons_other hv] at h
      rcases List.mem_cons.1 h with rfl | h
      · exact ⟨v, List.mem_cons_self, rfl⟩
      · obtain ⟨u, hu, hx⟩ := ih h
        exact ⟨u, List.mem_cons_of_mem _ hu, hx⟩

theorem getElem?_split {count line : Nat} (hline : line < count) (held : Option PinVector)
    (vs : List PinVector) :
    (split count held vs)[line]? = some (changes line (held.map fun u => u.pin line) vs) := by
  rw [split, List.getElem?_map, List.getElem?_range hline]
  rfl

/-- A vector that changes none of the lines leaves no sample. -/
theorem split_still {count : Nat} {u v : PinVector} (h : ∀ line < count, u.pin line = v.pin line)
    (vs : List PinVector) : split count (some u) (v :: vs) = split count (some v) vs := by
  refine List.map_congr_left fun line hline => changes_cons_same ?_ vs
  exact congrArg some (h line (List.mem_range.1 hline))

end PinVector

namespace Merger

open PinVector

variable {count : Nat} {held : Option PinVector} {v : PinVector} {vs : List PinVector}

/-- The merger has the levels of a vector in its pins. -/
def Holds (m : Merger) (count : Nat) (held : Option PinVector) : Prop :=
  ∀ u ∈ held, ∀ line < count, m.pins.toNat.testBit line = u.pin line

section Rising

variable (hrise : ∀ w ∈ vs, v.time < w.time)
include hrise

theorem lt_time_changes {line : Nat} {level : Option Bool} {x : Sample}
    (hx : x ∈ changes line level vs) : v.time < x.time := by
  obtain ⟨w, hw, hxw⟩ := time_changes hx
  exact hxw ▸ hrise w hw

theorem upTo_changes (line : Nat) (level : Option Bool) :
    upTo v.time (changes line level vs) = [] := by
  rw [upTo, List.takeWhile_eq_nil_iff]
  intro h
  simpa using lt_time_changes hrise (List.getElem_mem h)

theorem past_changes (line : Nat) (level : Option Bool) :
    past v.time (changes line level vs) = changes line level vs := by
  rw [past, List.dropWhile_eq_self_iff]
  intro h
  simpa using lt_time_changes hrise (List.getElem_mem h)

/-- The step at the time of a vector takes what the vector left in a line. -/
theorem past_changes_cons (line : Nat) (level : Option Bool) :
    past v.time (changes line level (v :: vs)) = changes line (some (v.pin line)) vs := by
  by_cases h : level = some (v.pin line)
  · rw [changes_cons_same h, past_changes hrise]
  · rw [changes_cons_other h, past, List.dropWhile_cons_of_pos (by simp)]
    exact past_changes hrise line _

/-- If the vector left nothing in a line, the line has its level already. -/
theorem levelBy_changes_cons (line : Nat) (level : Option Bool) :
    levelBy v.time (changes line level (v :: vs)) =
      if level = some (v.pin line) then none else some (v.pin line) := by
  have hrest : List.takeWhile (fun x => decide (x.time ≤ v.time))
      (changes line (some (v.pin line)) vs) = [] := upTo_changes hrise line _
  by_cases h : level = some (v.pin line)
  · rw [if_pos h, changes_cons_same h, levelBy, upTo, hrest]
    rfl
  · rw [if_neg h, changes_cons_other h, levelBy, upTo, List.takeWhile_cons_of_pos (by simp), hrest]
    rfl

theorem past_split :
    (split count held (v :: vs)).map (past v.time) = split count (some v) vs := by
  rw [split, List.map_map]
  exact List.map_congr_left fun line _ => past_changes_cons hrise line _

/-- The earliest sample left is one of the vector, if the vector changed any line. -/
theorem min?_headTimes_split
    (hchange : ∃ line < count, held.map (·.pin line) ≠ some (v.pin line)) :
    (headTimes (split count held (v :: vs))).min? = some v.time := by
  rw [List.min?_eq_some_iff]
  constructor
  · obtain ⟨line, hline, hlevel⟩ := hchange
    refine List.mem_filterMap.2 ⟨_, List.mem_map.2 ⟨line, List.mem_range.2 hline, rfl⟩, ?_⟩
    rw [changes_cons_other hlevel]
    rfl
  · intro time htime
    obtain ⟨xs, hxs, hhead⟩ := List.mem_filterMap.1 htime
    obtain ⟨line, _, rfl⟩ := List.mem_map.1 hxs
    obtain ⟨x, hx, rfl⟩ := Option.map_eq_some_iff.1 hhead
    obtain ⟨w, hw, hxw⟩ := time_changes (List.mem_of_head? hx)
    rcases List.mem_cons.1 hw with rfl | hw
    · exact Nat.le_of_eq hxw.symm
    · exact hxw ▸ Nat.le_of_lt (hrise w hw)

/-- The pins settle at the levels of the vector. -/
theorem testBit_settle_split (hcount : count ≤ 16) {m : Merger} (hm : m.Holds count held) :
    ∀ line < count, (settle v.time 0 m.pins (split count held (v :: vs))).toNat.testBit line =
      v.pin line := by
  intro line hline
  have hlen : 0 + (split count held (v :: vs)).length ≤ 16 := by simpa [split] using hcount
  rw [testBit_settle (Nat.lt_of_lt_of_le hline hcount) v.time 0 m.pins _ hlen,
    if_pos (Nat.zero_le line), Nat.sub_zero, getElem?_split hline, Option.bind_some,
    levelBy_changes_cons hrise]
  split
  · rename_i hlevel
    obtain ⟨u, hu, hpin⟩ := Option.map_eq_some_iff.1 hlevel
    exact (hm u hu line hline).trans hpin
  · rfl

end Rising

section Split

variable {σ : Type} [Source σ Sample] {K : σ → List Sample → Prop} (hK : Source.Alike K)
  {lines : List σ} {m : Merger}
include hK

/-- **A step on split lines**: if the vector that comes next changed any of them, the merger answers
with its time and its levels, and the lines go on after it. -/
theorem next_split (hcount : count ≤ 16) (hm : m.Holds count held)
    (hlines : List.Forall₂ K lines (split count held (v :: vs))) (hrise : ∀ w ∈ vs, v.time < w.time)
    (hchange : ∃ line < count, held.map (·.pin line) ≠ some (v.pin line)) :
    ∃ w lines' events, m.next lines = (.ok w, ⟨w.pins⟩, lines', events) ∧ w.time = v.time ∧
      (∀ line < count, w.pin line = v.pin line) ∧
      List.Forall₂ K lines' (split count (some v) vs) := by
  obtain ⟨lines', events, hnext, hlines'⟩ :=
    next_reads hK m hlines (min?_headTimes_split hrise hchange)
  rw [past_split hrise] at hlines'
  exact ⟨_, lines', events, hnext, rfl, testBit_settle_split hrise hcount hm, hlines'⟩

/-- After the last vector the merger has come to the end. -/
theorem next_split_nil (hlines : List.Forall₂ K lines (split count held [])) :
    ∃ lines' events, m.next lines = (.error .endOfStream, m, lines', events) := by
  have hnone : headTimes (split count held []) = [] := by
    refine List.filterMap_eq_nil_iff.2 fun xs hxs => ?_
    obtain ⟨line, _, rfl⟩ := List.mem_map.1 hxs
    rfl
  obtain ⟨lines', events, hnext, _⟩ := next_reads_end hK m hlines hnone
  exact ⟨lines', events, hnext⟩

end Split

end Merger

end BusDecode
