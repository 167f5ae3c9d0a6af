import BusDecode.Proofs.LineCursor.Calls

/-!
# Samples that repeat a level

A line says no less without samples that repeat the level before them (`Thinned`).  On the line and
on the thinned one a cursor skips to the same places (`OnThinned.skip`) and finds the same edges
(`OnThinned.wait`).  Only the end of the line may come earlier on the thinned one: a wait with a
budget is given up if there is a sample beyond its deadline, whatever the level of that sample, and
if none is left there the wait ends with the line.  Then there is no edge left on the line either
(`Outlasts`).
-/

set_option autoImplicit false

namespace BusDecode

namespace LineCursor

/-- The samples of a line without some that repeat the level of the sample before them, which is
known but for the first sample of a whole line. -/
inductive Thinned : Option Bool → List Sample → List Sample → Prop where
  | nil {before : Option Bool} : Thinned before [] []
  | keep {before : Option Bool} {x : Sample} {s s' : List Sample} :
    Thinned (some x.level) s s' → Thinned before (x :: s) (x :: s')
  | drop {before : Option Bool} {x : Sample} {s s' : List Sample} :
    before = some x.level → Thinned before s s' → Thinned before (x :: s) s'

theorem Thinned.sublist {before : Option Bool} {s s' : List Sample} (h : Thinned before s s') :
    s'.Sublist s := by
  induction h with
  | nil => exact .slnil
  | keep _ ih => exact ih.cons_cons _
  | drop _ _ ih => exact ih.cons _

/-- If nothing is left of a line, there was no edge on it. -/
theorem Thinned.level {level : Bool} {s : List Sample} (h : Thinned (some level) s []) :
    ∀ x ∈ s, x.level = level := by
  induction s with
  | nil => simp
  | cons x s ih =>
    cases h with
    | drop hx h => exact List.forall_mem_cons.2 ⟨(Option.some.inj hx).symm, ih h⟩

/-- The first sample of a whole line is kept. -/
theorem Thinned.of_cons {x : Sample} {s line : List Sample} (h : Thinned none (x :: s) line) :
    ∃ s', line = x :: s' ∧ Thinned (some x.level) s s' := by
  cases h with
  | keep h => exact ⟨_, rfl, h⟩
  | drop hx _ => cases hx

/-- A primed cursor that has the same samples ahead on a line and on a thinned one, but for some
that repeat the level before them. -/
structure OnThinned (c : LineCursor) (s s' : List Sample) : Prop where
  primed : c.primed = true
  rising : Rising s
  ahead : ∀ x ∈ s, c.now ≤ x.time
  thinned : Thinned (some c.level) s s'

/-- A move has the same outcome on a line and on a thinned one. -/
structure SameOn (moved moved' : Except Halt Bool × LineCursor × List Sample) : Prop where
  answer : moved.1 = moved'.1
  cursor : moved.2.1 = moved'.2.1
  onThinned : OnThinned moved.2.1 moved.2.2 moved'.2.2

/-- A wait is given up at its deadline on a line, where no edge is left, and ends with the thinned
line. -/
structure Outlasts (deadline : Nat) (moved moved' : Except Halt Bool × LineCursor × List Sample) :
    Prop where
  answer : moved.1 = .ok false
  now : moved.2.1.now = deadline
  primed : moved.2.1.primed = true
  idle : ∀ x ∈ moved.2.2, x.level = moved.2.1.level
  ended : moved'.1 = .error .endOfStream

section Idle

variable {c : LineCursor} {s : List Sample}

/-- A cursor goes to a target before its next sample. -/
theorem advance_before {target : Nat} (h : ∀ x ∈ s, target < x.time) :
    advance target c s = (.ok c.level, { c with now := target }, s) := by
  cases s with
  | nil => rw [advance_nil]
  | cons x s => rw [advance_cons, if_pos (h x List.mem_cons_self)]

/-- A wait without a budget ends with its line if no edge is left there. -/
theorem seek_idle (edge : Edge) (h : ∀ x ∈ s, x.level = c.level) :
    seek edge none c s = (.error .endOfStream, c, []) := by
  induction s with
  | nil => exact seek_nil edge none c
  | cons x s ih =>
    rw [seek_cons edge c x s (by simp), if_pos (h x List.mem_cons_self)]
    exact ih fun y hy => h y (List.mem_cons_of_mem _ hy)

theorem waitEdge_idle (edge : Edge) (hprimed : c.primed = true) (h : ∀ x ∈ s, x.level = c.level) :
    waitEdge edge none c s = (.error .endOfStream, c, []) := by
  rw [waitEdge_primed hprimed]
  exact seek_idle edge h

/-- A wait ends with its line or answers.  If it answers, it has not gone beyond its deadline. -/
theorem seek_within (edge : Edge) {deadline : Option Nat}
    (hdeadline : ∀ d, deadline = some d → c.now ≤ d) :
    (∃ c' rest, seek edge deadline c s = (.error .endOfStream, c', rest)) ∨
      ∃ b c' rest, seek edge deadline c s = (.ok b, c', rest) ∧
        ∀ d, deadline = some d → c'.now ≤ d := by
  induction s generalizing c with
  | nil => exact .inl ⟨c, [], seek_nil edge deadline c⟩
  | cons x s ih =>
    rcases seek_step edge deadline c x s with ⟨d, rfl, _, hseek⟩ | ⟨hsoon, hseek⟩
    · refine .inr ⟨false, _, _, hseek, ?_⟩
      rintro _ ⟨⟩
      exact Nat.le_refl _
    have hread : ∀ d, deadline = some d → max x.time c.now ≤ d := fun d hd =>
      Nat.max_le.2 ⟨hsoon d hd, hdeadline d hd⟩
    rw [hseek]
    split
    · exact ih hdeadline
    split
    · exact .inr ⟨true, _, _, rfl, hread⟩
    · exact ih hread

theorem waitEdge_within (edge : Edge) (budget : Option Nat) (hprimed : c.primed = true) :
    (∃ c' rest, waitEdge edge budget c s = (.error .endOfStream, c', rest)) ∨
      ∃ b c' rest, waitEdge edge budget c s = (.ok b, c', rest) ∧
        ∀ n, budget = some n → c'.now ≤ c.now + n := by
  rw [waitEdge_primed hprimed]
  refine (seek_within edge ?_).imp_right ?_
  · rintro d hd
    obtain ⟨n, _, rfl⟩ := Option.map_eq_some_iff.1 hd
    exact Nat.le_add_right _ _
  · rintro ⟨b, c', rest, hseek, hnow⟩
    refine ⟨b, c', rest, hseek, ?_⟩
    rintro n rfl
    exact hnow _ rfl

end Idle

namespace OnThinned

variable {c : LineCursor} {s s' rest : List Sample} {x : Sample}

/-- A cursor that has just read the first sample of a whole line. -/
theorem begin (hrising : Rising (x :: s)) (h : Thinned (some x.level) s s') :
    OnThinned (justRead x) s s' where
  primed := rfl
  rising := (List.pairwise_cons.1 hrising).2
  ahead y hy := Nat.le_of_lt ((List.pairwise_cons.1 hrising).1 y hy)
  thinned := h

/-- A sample that repeats the level is passed. -/
theorem pass (h : OnThinned c (x :: s) s') (hthin : Thinned (some c.level) s rest) :
    OnThinned c s rest where
  primed := h.primed
  rising := (List.pairwise_cons.1 h.rising).2
  ahead y hy := h.ahead y (List.mem_cons_of_mem _ hy)
  thinned := hthin

/-- The level of a sample is taken on both lines. -/
theorem next (h : OnThinned c (x :: s) s') (hthin : Thinned (some x.level) s rest) :
    OnThinned { c with level := x.level } s rest where
  primed := h.primed
  rising := (List.pairwise_cons.1 h.rising).2
  ahead y hy := h.ahead y (List.mem_cons_of_mem _ hy)
  thinned := hthin

/-- The cursor may stand at any time up to its next sample. -/
theorem stand {t : Nat} (h : OnThinned c s s') (ht : ∀ x ∈ s, t ≤ x.time) :
    OnThinned { c with now := t } s s' :=
  ⟨h.primed, h.rising, ht, h.thinned⟩

/-- A sample is read on both lines. -/
theorem read (h : OnThinned c (x :: s) s') (hthin : Thinned (some x.level) s rest) :
    OnThinned { c with level := x.level, now := max x.time c.now } s rest := by
  refine (h.next hthin).stand fun y hy => Nat.max_le.2 ⟨?_, h.ahead y (List.mem_cons_of_mem _ hy)⟩
  exact Nat.le_of_lt ((List.pairwise_cons.1 h.rising).1 y hy)

/-! ## Skips -/

theorem advance (h : OnThinned c s s') (target : Nat) :
    SameOn (advance target c s) (advance target c s') := by
  induction s generalizing c s' with
  | nil =>
    cases h.thinned with
    | nil =>
      rw [advance_nil]
      exact ⟨rfl, rfl, h.stand (by simp)⟩
  | cons x s ih =>
    obtain ⟨hlater, _⟩ := List.pairwise_cons.1 h.rising
    by_cases hx : x.time < target
    · -- the sample is behind the target, so it is read where there is one
      have hread (rest : List Sample) : LineCursor.advance target c (x :: rest) =
          LineCursor.advance target { c with level := x.level } rest := by
        rw [advance_cons, if_neg (Nat.lt_asymm hx), if_neg (Nat.ne_of_lt hx)]
      cases h.thinned with
      | keep hthin =>
        rw [hread, hread]
        exact ih (h.next hthin)
      | drop hlevel hthin =>
        rw [hread, ← Option.some.inj hlevel]
        exact ih (h.pass hthin)
    · have hstand := h.stand (h.rising.ahead (Nat.not_lt.1 hx))
      cases h.thinned with
      | keep _ =>
        rw [advance_cons, advance_cons]
        split
        · exact ⟨rfl, rfl, hstand⟩
        · rw [if_pos (by omega), if_pos (by omega)]
          exact ⟨rfl, rfl, hstand⟩
      | drop hlevel hthin =>
        have hbeyond : ∀ y ∈ s', target < y.time := fun y hy =>
          Nat.lt_of_le_of_lt (Nat.not_lt.1 hx) (hlater y (hthin.sublist.mem hy))
        rw [advance_before hbeyond, advance_cons]
        split
        · exact ⟨rfl, rfl, hstand⟩
        · rw [if_pos (by omega), ← Option.some.inj hlevel]
          exact ⟨rfl, rfl, hstand⟩

/-- **A skip** ends the same on a thinned line. -/
theorem skip (h : OnThinned c s s') (count : Nat) : SameOn (skip count c s) (skip count c s') := by
  rw [skip_primed h.primed, skip_primed h.primed]
  exact h.advance _

/-! ## Waits -/

theorem seek (h : OnThinned c s s') (edge : Edge) {deadline : Option Nat}
    (hdeadline : ∀ d, deadline = some d → c.now ≤ d) :
    SameOn (seek edge deadline c s) (seek edge deadline c s') ∨
      ∃ d, deadline = some d ∧ Outlasts d (seek edge deadline c s) (seek edge deadline c s') := by
  induction s generalizing c s' with
  | nil =>
    cases h.thinned with
    | nil =>
      rw [seek_nil]
      exact .inl ⟨rfl, rfl, h⟩
  | cons x s ih =>
    rcases seek_step edge deadline c x s with ⟨d, rfl, hd, hseek⟩ | ⟨hsoon, hseek⟩
    · have hstand := h.stand (h.rising.ahead (Nat.le_of_lt hd))
      rw [hseek]
      cases h.thinned with
      | keep _ =>
        rw [seek_late hd]
        exact .inl ⟨rfl, rfl, hstand⟩
      | drop hlevel hthin =>
        cases s' with
        | nil =>
          -- the samples beyond the deadline have all been left out
          exact .inr ⟨d, rfl, rfl, rfl, h.primed, h.thinned.level, by rw [seek_nil]⟩
        | cons y rest =>
          have hlater := (List.pairwise_cons.1 h.rising).1 y (hthin.sublist.mem List.mem_cons_self)
          rw [seek_late (Nat.lt_trans hd hlater)]
          exact .inl ⟨rfl, rfl, hstand⟩
    · rw [hseek]
      cases h.thinned with
      | drop hlevel hthin =>
        rw [if_pos (Option.some.inj hlevel).symm]
        exact ih (h.pass hthin) hdeadline
      | keep hthin =>
        rw [LineCursor.seek_cons edge c x _ hsoon]
        split
        · exact ih (h.pass (by rwa [← ‹x.level = c.level›])) hdeadline
        split
        · exact .inl ⟨rfl, rfl, h.read hthin⟩
        · exact ih (h.read hthin) fun d hd => Nat.max_le.2 ⟨hsoon d hd, hdeadline d hd⟩

/-- **A wait** ends the same on a thinned line, but for one with a budget at the end of it. -/
theorem wait (h : OnThinned c s s') (edge : Edge) (budget : Option Nat) :
    SameOn (waitEdge edge budget c s) (waitEdge edge budget c s') ∨
      ∃ n, budget = some n ∧
        Outlasts (c.now + n) (waitEdge edge budget c s) (waitEdge edge budget c s') := by
  rw [waitEdge_primed h.primed, waitEdge_primed h.primed]
  cases budget with
  | none => exact (h.seek edge (by simp)).imp_right (by simp)
  | some n =>
    have hdeadline : ∀ d, some (c.now + n) = some d → c.now ≤ d := by
      rintro d ⟨⟩
      exact Nat.le_add_right _ _
    refine (h.seek edge hdeadline).imp_right ?_
    rintro ⟨d, ⟨⟩, houtlasts⟩
    exact ⟨n, rfl, houtlasts⟩

/-- A wait without a budget ends the same on a thinned line. -/
theorem wait_unlimited (h : OnThinned c s s') (edge : Edge) :
    SameOn (waitEdge edge none c s) (waitEdge edge none c s') := by
  rcases h.wait edge none with hsame | ⟨_, ⟨⟩, _⟩
  exact hsame

end OnThinned

end LineCursor

end BusDecode
