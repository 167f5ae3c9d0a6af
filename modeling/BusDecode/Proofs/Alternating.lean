import BusDecode.Proofs.LineCursor
import Mathlib.Data.List.Chain

/-!
# A cursor on an alternating line

On a line whose samples alternate in level every sample but the first is an edge.  Waits and skips
lead from the beginning of a line to its `Reachable` positions.  Once it has begun, a cursor there
`HasRead` the line up to a sample: it has the level of that sample and stands between it and the
samples left.  So a wait looks no further than at the next two samples.
-/

set_option autoImplicit false

namespace BusDecode

namespace LineCursor

/-- The level changes from sample to sample. -/
abbrev Alternating (line : List Sample) : Prop :=
  line.IsChain fun x y => x.level ≠ y.level

/-- The positions that waits and skips lead to, whatever they are for and however they end. -/
inductive Reachable (line : List Sample) : LineCursor → List Sample → Prop
  | start : Reachable line {} line
  | wait {c : LineCursor} {s : List Sample} (edge : Edge) (budget : Option Nat)
      (h : Reachable line c s) :
      Reachable line (waitEdge edge budget c s).2.1 (waitEdge edge budget c s).2.2
  | skip {c : LineCursor} {s : List Sample} (count : Nat) (h : Reachable line c s) :
      Reachable line (skip count c s).2.1 (skip count c s).2.2

/-- The edges that a cursor has left; the first sample of a line is none. -/
def edgesLeft (c : LineCursor) (s : List Sample) : List Sample :=
  if c.primed then s else s.tail

/-- The cursor has begun, `x` is the sample it read last, and the position is between `x` and the
samples left. -/
structure HasRead (line : List Sample) (x : Sample) (c : LineCursor) (s : List Sample) : Prop where
  split : ∃ before, line = before ++ x :: s
  primed : c.primed = true
  level : c.level = x.level
  past : x.time ≤ c.now
  ahead : ∀ y ∈ s, c.now ≤ y.time

/-- The cursor right after it read a sample. -/
def justRead (x : Sample) : LineCursor :=
  ⟨x.time, x.level, true⟩

@[simp] theorem now_justRead (x : Sample) : (justRead x).now = x.time := rfl

section Lines

variable {line s : List Sample} {x y : Sample} {c : LineCursor}

theorem Alternating.second (h : Alternating (x :: y :: s)) : y.level = !x.level :=
  Bool.eq_not.2 (List.isChain_cons_cons.1 h).1.symm

theorem Alternating.tail (h : Alternating (x :: s)) : Alternating s :=
  List.IsChain.tail h

theorem Alternating.change {before : List Sample} (h : Alternating (before ++ x :: y :: s)) :
    y.level = !x.level :=
  Alternating.second (List.isChain_append.1 h).2.1

/-- What comes before the first sample comes before all of them. -/
theorem Rising.ahead {t : Nat} (h : Rising (x :: s)) (ht : t ≤ x.time) :
    ∀ y ∈ x :: s, t ≤ y.time := by
  have hlater := (List.pairwise_cons.1 h).1
  refine List.forall_mem_cons.2 ⟨ht, fun y hy => ?_⟩
  have := hlater y hy
  omega

namespace HasRead

theorem justRead {before : List Sample} (hrising : Rising line)
    (hline : line = before ++ x :: s) : HasRead line x (justRead x) s where
  split := ⟨before, hline⟩
  primed := rfl
  level := rfl
  past := Nat.le_refl _
  ahead y hy := by
    rw [hline] at hrising
    have hlater := (List.pairwise_cons.1 (List.pairwise_append.1 hrising).2.1).1
    exact Nat.le_of_lt (hlater y hy)

theorem begin (hrising : Rising (x :: s)) : HasRead (x :: s) x (LineCursor.justRead x) s :=
  justRead hrising (List.nil_append _).symm

/-- Reading the next sample. -/
theorem next (hrising : Rising line) (h : HasRead line x c (y :: s)) :
    HasRead line y (LineCursor.justRead y) s := by
  obtain ⟨before, hline⟩ := h.split
  exact justRead hrising (hline.trans (by simp : _ = (before ++ [x]) ++ y :: s))

theorem change (halternating : Alternating line) (h : HasRead line x c (y :: s)) :
    y.level = !x.level := by
  obtain ⟨before, hline⟩ := h.split
  rw [hline] at halternating
  exact halternating.change

theorem rising_from (hrising : Rising line) (h : HasRead line x c s) : Rising (x :: s) := by
  obtain ⟨before, hline⟩ := h.split
  rw [hline] at hrising
  exact (List.pairwise_append.1 hrising).2.1

theorem rising (hrising : Rising line) (h : HasRead line x c s) : Rising s :=
  (List.pairwise_cons.1 (h.rising_from hrising)).2

theorem suffix (h : HasRead line x c s) : s <:+ line := by
  obtain ⟨before, hline⟩ := h.split
  exact ⟨before ++ [x], by rw [hline, List.append_assoc, List.singleton_append]⟩

/-- A cursor that has read its line so far is on the wave of the line. -/
theorem onWave (hrising : Rising line) (h : HasRead line x c s) :
    OnWave (levelAt false line) c s := by
  refine ⟨h.primed, h.rising hrising, h.ahead, fun t ht => ?_⟩
  obtain ⟨before, hline⟩ := h.split
  rw [hline] at hrising
  have hbefore := (List.pairwise_append.1 hrising).2.2
  have hxt : x.time ≤ t := Nat.le_trans h.past ht
  rw [hline, levelAt_passed (fun z hz => ?_) hxt, h.level]
  exact Nat.le_trans (Nat.le_of_lt (hbefore z hz x List.mem_cons_self)) hxt

end HasRead

/-! ## Waits -/

theorem seek_late {edge : Edge} {d : Nat} (h : d < x.time) :
    seek edge (some d) c (x :: s) = (.ok false, { c with now := d }, x :: s) := by
  have hfilter : (some d).filter (· < x.time) = some d := by simp [h]
  rw [seek]
  simp only [Source.peek_cons, hfilter]

namespace HasRead

/-- The next sample is an edge, so a wait that reads it stops there if it is one of the right
kind. -/
theorem seek_cons {edge : Edge} {deadline : Option Nat} (halternating : Alternating line)
    (h : HasRead line x c (y :: s)) (hdeadline : ∀ d, deadline = some d → y.time ≤ d) :
    seek edge deadline c (y :: s) =
      if edge.matches y.level then (.ok true, LineCursor.justRead y, s)
      else seek edge deadline (LineCursor.justRead y) s := by
  have hchange : y.level ≠ c.level := by
    rw [h.level]
    exact Bool.eq_not.1 (h.change halternating)
  rw [LineCursor.seek_cons edge c y s hdeadline, if_neg hchange,
    Nat.max_eq_left (h.ahead y List.mem_cons_self), h.primed]
  rfl

theorem waitEdge_eq (h : HasRead line x c s) (edge : Edge) (budget : Option Nat) :
    waitEdge edge budget c s = seek edge (budget.map (c.now + ·)) c s := by
  unfold waitEdge
  rw [prime_primed h.primed]

theorem waitEdge_nil (h : HasRead line x c []) (edge : Edge) (budget : Option Nat) :
    waitEdge edge budget c [] = (.error .endOfStream, c, []) := by
  rw [h.waitEdge_eq, seek_nil]

/-- A wait for the next edge finds it, unless it is later than the budget allows. -/
theorem waitEdge_next {edge : Edge} {budget : Nat} (halternating : Alternating line)
    (h : HasRead line x c (y :: s)) (hmatch : edge.matches y.level = true) :
    waitEdge edge (some budget) c (y :: s) =
      if c.now + budget < y.time then (.ok false, { c with now := c.now + budget }, y :: s)
      else (.ok true, LineCursor.justRead y, s) := by
  rw [h.waitEdge_eq, Option.map_some]
  split
  · exact seek_late ‹_›
  · rw [h.seek_cons halternating (by rintro d ⟨⟩; omega), if_pos hmatch]

/-- A wait for a fall ends at the first low sample left. -/
theorem waitEdge_fall {rest : List Sample} (hrising : Rising line)
    (halternating : Alternating line) (h : HasRead line x c s)
    (hs : s.dropWhile Sample.level = y :: rest) :
    waitEdge .falling none c s = (.ok true, LineCursor.justRead y, rest) ∧
      HasRead line y (LineCursor.justRead y) rest ∧ y.level = false := by
  rw [h.waitEdge_eq]
  induction s generalizing x c with
  | nil => cases hs
  | cons z s ih =>
    rw [Option.map_none, h.seek_cons halternating (by simp)]
    cases hz : z.level with
    | true =>
      rw [List.dropWhile_cons_of_pos hz] at hs
      exact ih (h.next hrising) hs
    | false =>
      rw [List.dropWhile_cons_of_neg (by simp [hz])] at hs
      cases hs
      exact ⟨rfl, h.next hrising, hz⟩

theorem waitEdge_fall_none (hrising : Rising line) (halternating : Alternating line)
    (h : HasRead line x c s) (hs : s.dropWhile Sample.level = []) :
    ∃ c', waitEdge .falling none c s = (.error .endOfStream, c', []) := by
  rw [h.waitEdge_eq]
  induction s generalizing x c with
  | nil => exact ⟨c, seek_nil _ _ _⟩
  | cons z s ih =>
    rw [Option.map_none, h.seek_cons halternating (by simp)]
    cases hz : z.level with
    | true =>
      rw [List.dropWhile_cons_of_pos hz] at hs
      exact ih (h.next hrising) hs
    | false =>
      rw [List.dropWhile_cons_of_neg (by simp [hz])] at hs
      cases hs

/-! ## Moving on -/

theorem seek {edge : Edge} {deadline : Option Nat} (hrising : Rising line)
    (halternating : Alternating line) (h : HasRead line x c s)
    (hdeadline : ∀ d, deadline = some d → c.now ≤ d) :
    ∃ y, HasRead line y (seek edge deadline c s).2.1 (seek edge deadline c s).2.2 := by
  induction s generalizing x c with
  | nil =>
    rw [seek_nil]
    exact ⟨x, h⟩
  | cons z s ih =>
    by_cases hlate : ∃ d, deadline = some d ∧ d < z.time
    · obtain ⟨d, rfl, hd⟩ := hlate
      rw [seek_late hd]
      refine ⟨x, h.split, h.primed, h.level, Nat.le_trans h.past (hdeadline d rfl), ?_⟩
      exact (h.rising hrising).ahead (Nat.le_of_lt hd)
    · have hsoon : ∀ d, deadline = some d → z.time ≤ d := by
        intro d hd
        exact Nat.not_lt.1 fun hlt => hlate ⟨d, hd, hlt⟩
      rw [h.seek_cons halternating hsoon]
      split
      · exact ⟨z, h.next hrising⟩
      · exact ih (h.next hrising) hsoon

theorem advance {target : Nat} (hrising : Rising line) (hsplit : ∃ before, line = before ++ x :: s)
    (hprimed : c.primed = true) (hlevel : c.level = x.level) (hpast : x.time ≤ target) :
    ∃ y, HasRead line y (advance target c s).2.1 (advance target c s).2.2 := by
  induction s generalizing x c with
  | nil =>
    rw [advance_nil]
    exact ⟨x, hsplit, hprimed, hlevel, hpast, by simp⟩
  | cons z s ih =>
    obtain ⟨before, hline⟩ := hsplit
    have hnext : line = (before ++ [x]) ++ z :: s := by simpa using hline
    have hrest : Rising (z :: s) := by
      rw [hnext] at hrising
      exact (List.pairwise_append.1 hrising).2.1
    rw [advance_cons]
    split
    · exact ⟨x, ⟨before, hline⟩, hprimed, hlevel, hpast, hrest.ahead (Nat.le_of_lt ‹_›)⟩
    split
    · exact ⟨x, ⟨before, hline⟩, hprimed, hlevel, hpast, hrest.ahead (Nat.le_of_eq (Eq.symm ‹_›))⟩
    · exact ih ⟨_, hnext⟩ hprimed rfl (by omega)

theorem wait (hrising : Rising line) (halternating : Alternating line) (h : HasRead line x c s)
    (edge : Edge) (budget : Option Nat) :
    ∃ y, HasRead line y (waitEdge edge budget c s).2.1 (waitEdge edge budget c s).2.2 := by
  rw [h.waitEdge_eq]
  refine h.seek hrising halternating fun d hd => ?_
  obtain ⟨n, _, rfl⟩ := Option.map_eq_some_iff.1 hd
  exact Nat.le_add_right _ _

theorem skip (hrising : Rising line) (h : HasRead line x c s) (count : Nat) :
    ∃ y, HasRead line y (skip count c s).2.1 (skip count c s).2.2 := by
  unfold LineCursor.skip
  rw [prime_primed h.primed]
  exact advance hrising h.split h.primed h.level (Nat.le_trans h.past (Nat.le_add_right _ _))

end HasRead

/-! ## Reachable positions -/

/-- A cursor that has not begun goes on as if it had just read the first sample. -/
theorem waitEdge_fresh (edge : Edge) (budget : Option Nat) (x : Sample) (s : List Sample) :
    waitEdge edge budget {} (x :: s) = waitEdge edge budget (justRead x) s :=
  rfl

theorem skip_fresh (count : Nat) (x : Sample) (s : List Sample) :
    skip count {} (x :: s) = skip count (justRead x) s :=
  rfl

namespace Reachable

/-- A position is the beginning of the line, or the cursor has read the line up to it. -/
theorem hasRead (hrising : Rising line) (halternating : Alternating line)
    (h : Reachable line c s) : (c = {} ∧ s = line) ∨ ∃ x, HasRead line x c s := by
  induction h with
  | start => exact .inl ⟨rfl, rfl⟩
  | @wait c s edge budget _ ih =>
    obtain ⟨rfl, rfl⟩ | ⟨x, h⟩ := ih
    · cases s with
      | nil => exact .inl ⟨rfl, rfl⟩
      | cons x s =>
        rw [waitEdge_fresh]
        exact .inr ((HasRead.begin hrising).wait hrising halternating _ _)
    · exact .inr (h.wait hrising halternating _ _)
  | @skip c s count _ ih =>
    obtain ⟨rfl, rfl⟩ | ⟨x, h⟩ := ih
    · cases s with
      | nil => exact .inl ⟨rfl, rfl⟩
      | cons x s =>
        rw [skip_fresh]
        exact .inr ((HasRead.begin hrising).skip hrising _)
    · exact .inr (h.skip hrising _)

/-- A wait for a fall ends at the first of the edges left that is low. -/
theorem waitEdge_fall {rest : List Sample} (hrising : Rising line)
    (halternating : Alternating line) (h : Reachable line c s)
    (hedges : (edgesLeft c s).dropWhile Sample.level = y :: rest) :
    waitEdge .falling none c s = (.ok true, justRead y, rest) ∧
      HasRead line y (justRead y) rest ∧ y.level = false := by
  obtain ⟨rfl, rfl⟩ | ⟨x, h⟩ := h.hasRead hrising halternating
  · cases s with
    | nil => cases hedges
    | cons x s =>
      rw [waitEdge_fresh]
      exact (HasRead.begin hrising).waitEdge_fall hrising halternating hedges
  · rw [edgesLeft, if_pos h.primed] at hedges
    exact h.waitEdge_fall hrising halternating hedges

theorem waitEdge_fall_none (hrising : Rising line) (halternating : Alternating line)
    (h : Reachable line c s) (hedges : (edgesLeft c s).dropWhile Sample.level = []) :
    ∃ c', waitEdge .falling none c s = (.error .endOfStream, c', []) := by
  obtain ⟨rfl, rfl⟩ | ⟨x, h⟩ := h.hasRead hrising halternating
  · cases s with
    | nil => exact ⟨{}, rfl⟩
    | cons x s =>
      rw [waitEdge_fresh]
      exact (HasRead.begin hrising).waitEdge_fall_none hrising halternating
        hedges
  · rw [edgesLeft, if_pos h.primed] at hedges
    exact h.waitEdge_fall_none hrising halternating hedges

end Reachable

end Lines

end LineCursor

end BusDecode
