import BusDecode.Proofs.LineCursor.Calls

/-!
# The next fall of a line

A cursor that calls have led along a line from its beginning has not begun, or follows the line
(`Reachable.follows`).  In both cases the samples it has left are the last ones of the line, so a
wait for a fall ends at the first fall among them (`Reachable.wait_fall`), and what comes after that
is left again.
-/

set_option autoImplicit false

namespace BusDecode

namespace LineCursor

/-- The first fall of a line among its unread samples. -/
def nextFall? (line unread : List Sample) : Option Sample :=
  ((edges line).filter fun x => !x.level && decide (x ∈ unread)).head?

/-- The first fall of a line from a time on. -/
def fallFrom? (line : List Sample) (t : Nat) : Option Sample :=
  ((edges line).filter fun x => !x.level && decide (t ≤ x.time)).head?

variable {line s : List Sample} {x : Sample} {c : LineCursor}

theorem mem_line_of_mem_edges (h : x ∈ edges line) : x ∈ line :=
  List.mem_of_mem_tail (mem_tail_of_mem_edges h)

/-- A fall among the unread samples is an unread sample of the line. -/
theorem mem_of_nextFall (h : nextFall? line s = some x) : x ∈ edges line ∧ x ∈ s := by
  have hmem := List.mem_filter.1 (List.mem_of_head? h)
  exact ⟨hmem.1, of_decide_eq_true (Bool.and_eq_true_iff.1 hmem.2).2⟩

/-- What is later than one of the last samples of a line is one of them as well. -/
theorem mem_suffix_of_later {y : Sample} (hline : Rising line) (hs : s <:+ line) (hx : x ∈ s)
    (hy : y ∈ line) (hlater : x.time < y.time) : y ∈ s := by
  obtain ⟨before, rfl⟩ := hs
  rcases List.mem_append.1 hy with hbefore | hrest
  · have hearlier := (List.pairwise_append.1 hline).2.2 y hbefore x hx
    omega
  · exact hrest

/-- Once a fall among the last samples of a line is passed, the next fall is the first one from the
position on. -/
theorem nextFall_filter {t : Nat} (hline : Rising line) (hs : s <:+ line) (hx : x ∈ s)
    (ht : x.time < t) : nextFall? line (s.filter (t ≤ ·.time)) = fallFrom? line t := by
  refine congrArg List.head? (List.filter_congr fun y hy => ?_)
  have hleft : y ∈ s.filter (t ≤ ·.time) ↔ t ≤ y.time := by
    rw [List.mem_filter, decide_eq_true_eq, and_iff_right_iff_imp]
    intro hlater
    exact mem_suffix_of_later hline hs hx (mem_line_of_mem_edges hy) (Nat.lt_of_lt_of_le ht hlater)
  simp only [hleft]

/-! ## Where calls lead -/

/-- Any call of a fresh cursor reads the first sample of its line. -/
theorem Call.run_fresh (call : Call) : call.run {} (x :: s) = call.run (justRead x) s := by
  cases call <;> rfl

/-- Calls lead from the beginning of a line along it. -/
theorem Reachable.follows (hline : Rising line) (h : Reachable line c s) :
    (c = {} ∧ s = line) ∨ Follows line c s := by
  -- a call that finds nothing to begin with leaves a fresh cursor fresh
  have hcall : ∀ {c s}, ((c = {} ∧ s = line) ∨ Follows line c s) → ∀ call : Call,
      ((call.run c s).2.1 = {} ∧ (call.run c s).2.2 = line) ∨
        Follows line (call.run c s).2.1 (call.run c s).2.2 := by
    rintro c s (⟨rfl, rfl⟩ | hfollows) call
    · cases s with
      | nil => exact .inl (by cases call <;> exact ⟨rfl, rfl⟩)
      | cons x s =>
        rw [Call.run_fresh]
        exact .inr ((Follows.begin hline).run hline call).2
    · exact .inr (hfollows.run hline call).2
  induction h with
  | start => exact .inl ⟨rfl, rfl⟩
  | wait edge budget _ ih => exact hcall ih (.wait edge budget)
  | skip count _ ih => exact hcall ih (.skip count)

theorem Follows.suffix (h : Follows line c s) : s <:+ line := by
  obtain ⟨before, y, hsplit, -⟩ := h.before
  exact ⟨before ++ [y], by rw [hsplit, List.append_assoc, List.singleton_append]⟩

theorem Reachable.suffix (hline : Rising line) (h : Reachable line c s) : s <:+ line := by
  rcases h.follows hline with ⟨-, rfl⟩ | hfollows
  · exact List.suffix_refl s
  · exact hfollows.suffix

/-! ## Waiting for a fall -/

/-- Among the edges that are unread, a wait for a fall looks for the next fall. -/
theorem find_fall : ((edges line).filter (· ∈ s)).find? (fun x =>
    Edge.falling.matches x.level && (none : Option Nat).all (x.time ≤ ·)) = nextFall? line s := by
  rw [← List.head?_filter, List.filter_filter]
  refine congrArg List.head? (List.filter_congr fun y _ => ?_)
  simp [Edge.matches]

theorem Follows.wait_fall (hline : Rising line) (h : Follows line c s)
    (hx : nextFall? line s = some x) :
    ∃ c', waitEdge .falling none c s = (.ok true, c', s.filter (x.time < ·.time)) ∧
      c'.now = x.time ∧ Follows line c' (s.filter (x.time < ·.time)) := by
  obtain ⟨hshown, hfollows⟩ := h.wait hline .falling none
  rw [Call.outcome, waited, Option.map_none, find_fall, hx] at hshown
  rcases hwait : waitEdge .falling none c s with ⟨answer, c', rest⟩
  rw [hwait] at hshown hfollows
  obtain ⟨rfl, hnow, rfl⟩ := Outcome.mk.inj hshown
  exact ⟨c', rfl, hnow, hfollows⟩

theorem Follows.wait_none (hline : Rising line) (h : Follows line c s)
    (hx : nextFall? line s = none) :
    ∃ c' rest, waitEdge .falling none c s = (.error .endOfStream, c', rest) := by
  obtain ⟨hshown, -⟩ := h.wait hline .falling none
  rw [Call.outcome, waited, Option.map_none, find_fall, hx] at hshown
  rcases hwait : waitEdge .falling none c s with ⟨answer, c', rest⟩
  rw [hwait] at hshown
  obtain ⟨rfl, -, -⟩ := Outcome.mk.inj hshown
  exact ⟨c', rest, rfl⟩

/-- No fall of a line is its first sample. -/
theorem nextFall_begin {first : Sample} :
    nextFall? (first :: s) (first :: s) = nextFall? (first :: s) s := by
  refine congrArg List.head? (List.filter_congr fun y hy => ?_)
  have hys : y ∈ s := mem_of_mem_edges hy
  simp [hys]

theorem filter_begin {first : Sample} (hline : Rising (first :: s)) (hx : x ∈ s) :
    (first :: s).filter (x.time < ·.time) = s.filter (x.time < ·.time) := by
  have hlater := (List.pairwise_cons.1 hline).1 x hx
  exact List.filter_cons_of_neg (by simpa using Nat.le_of_lt hlater)

/-- **A wait for a fall** ends at the first one that is unread. -/
theorem Reachable.wait_fall (hline : Rising line) (h : Reachable line c s)
    (hx : nextFall? line s = some x) :
    ∃ c', waitEdge .falling none c s = (.ok true, c', s.filter (x.time < ·.time)) ∧
      c'.now = x.time ∧ Follows line c' (s.filter (x.time < ·.time)) := by
  rcases h.follows hline with ⟨rfl, rfl⟩ | hfollows
  · cases s with
    | nil => cases hx
    | cons first s =>
      rw [nextFall_begin] at hx
      rw [filter_begin hline (mem_of_nextFall hx).2, waitEdge_fresh]
      exact (Follows.begin hline).wait_fall hline hx
  · exact hfollows.wait_fall hline hx

/-- Without a fall the wait ends with the line. -/
theorem Reachable.wait_none (hline : Rising line) (h : Reachable line c s)
    (hx : nextFall? line s = none) :
    ∃ c' rest, waitEdge .falling none c s = (.error .endOfStream, c', rest) := by
  rcases h.follows hline with ⟨rfl, rfl⟩ | hfollows
  · cases s with
    | nil => exact ⟨_, _, rfl⟩
    | cons first s =>
      rw [nextFall_begin] at hx
      rw [waitEdge_fresh]
      exact (Follows.begin hline).wait_none hline hx
  · exact hfollows.wait_none hline hx

end LineCursor

end BusDecode
