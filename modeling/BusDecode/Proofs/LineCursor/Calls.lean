import BusDecode.Proofs.Alternating

/-!
# Any calls of a cursor

What skips and waits do, in whatever order they come, on a line whose samples rise in time, also if
they repeat a level.  `Call.outcome` says it of the line alone: a skip tells the level of the line
where it ends, a wait looks for an edge among the samples left.

The level that a cursor has is that of the sample before those it has left, and it need not be the
level of the line at its position: a skip leaves the sample it ends at unread.  So a cursor that
`Follows` its line keeps both facts apart, the wave it reads from its position on and the sample
before the unread ones.  Each call has its outcome from there and leads to such a cursor again
(`Follows.run`), and so have any calls from the beginning of a line on (`outcomes_fresh`).
-/

set_option autoImplicit false

namespace BusDecode

namespace LineCursor

/-! ## What a line says -/

/-- The level of a line at a time: that of the last sample that starts by then. -/
def levelOf (line : List Sample) (t : Nat) : Bool :=
  ((line.filter fun x => x.time ≤ t).getLast?.map Sample.level).getD false

/-- The samples whose level differs from that of the sample before. -/
def edges : List Sample → List Sample
  | x :: y :: s => if y.level = x.level then edges (y :: s) else y :: edges (y :: s)
  | _ => []

/-- What a call shows: its answer, the position after it and the samples it left unread. -/
structure Outcome where
  answer : Except Halt Bool
  now : Nat
  unread : List Sample
  deriving DecidableEq

/-- A call of a cursor. -/
inductive Call where
  | skip (count : Nat)
  | wait (edge : Edge) (budget : Option Nat)
  deriving DecidableEq, Repr

/-- How a wait ends that has these edges ahead: at the first of the right kind that is not beyond
the deadline, or else at the deadline if any sample is beyond it, or else with the line. -/
def waited (edge : Edge) (deadline : Option Nat) (ahead : List Sample) (now : Nat)
    (unread : List Sample) : Outcome :=
  match ahead.find? fun x => edge.matches x.level && deadline.all (x.time ≤ ·) with
  | some x => ⟨.ok true, x.time, unread.filter (x.time < ·.time)⟩
  | none =>
    match deadline.filter fun d => unread.any (d < ·.time) with
    | some d => ⟨.ok false, d, unread.filter (d < ·.time)⟩
    | none => ⟨.error .endOfStream, (ahead.getLast?.map Sample.time).getD now, []⟩

/-- The outcome of a call at a position of a line, with some of its samples unread. -/
def Call.outcome (line : List Sample) (now : Nat) (unread : List Sample) : Call → Outcome
  | .skip count =>
    ⟨.ok (levelOf line (now + count)), now + count, unread.filter (now + count ≤ ·.time)⟩
  | .wait edge budget =>
    waited edge (budget.map (now + ·)) ((edges line).filter (· ∈ unread)) now unread

/-- The outcomes of calls one after the other. -/
def expected (line : List Sample) : Nat → List Sample → List Call → List Outcome
  | _, _, [] => []
  | now, unread, call :: calls =>
    let outcome := call.outcome line now unread
    outcome :: expected line outcome.now outcome.unread calls

/-! ## Calls -/

/-- A call on a source. -/
def Call.run {σ : Type} [Source σ Sample] (c : LineCursor) (s : σ) :
    Call → Except Halt Bool × LineCursor × σ
  | .skip count => LineCursor.skip count c s
  | .wait edge budget => waitEdge edge budget c s

/-- What is seen of a result. -/
def shown (result : Except Halt Bool × LineCursor × List Sample) : Outcome :=
  ⟨result.1, result.2.1.now, result.2.2⟩

/-- What is seen of calls one after the other. -/
def outcomes (c : LineCursor) (s : List Sample) : List Call → List Outcome
  | [] => []
  | call :: calls =>
    shown (call.run c s) :: outcomes (call.run c s).2.1 (call.run c s).2.2 calls

/-! ## Reading a line -/

section Line

variable {line s : List Sample} {x : Sample}

/-- The level at a time, read off the last sample that starts by then. -/
theorem levelAt_eq (hs : Rising s) (level : Bool) (t : Nat) :
    levelAt level s t =
      ((s.filter fun x => x.time ≤ t).getLast?.map Sample.level).getD level := by
  induction s generalizing level with
  | nil => rfl
  | cons x s ih =>
    obtain ⟨hlater, hrest⟩ := List.pairwise_cons.1 hs
    by_cases hx : x.time ≤ t
    · rw [levelAt_after level hx, ih hrest, List.filter_cons_of_pos (by simpa using hx),
        List.getLast?_cons]
      cases (s.filter fun x => x.time ≤ t).getLast? <;> rfl
    · have hall : ∀ y ∈ x :: s, t < y.time := hs.ahead (Nat.lt_of_not_le hx)
      rw [levelAt_before hall, List.filter_eq_nil_iff.2 (by simpa using hall)]
      rfl

theorem levelOf_eq (hline : Rising line) : levelOf line = levelAt false line :=
  funext fun t => (levelAt_eq hline false t).symm

theorem edges_same {y : Sample} (h : y.level = x.level) (s : List Sample) :
    edges (x :: y :: s) = edges (y :: s) := by
  rw [edges, if_pos h]

theorem edges_other {y : Sample} (h : y.level ≠ x.level) (s : List Sample) :
    edges (x :: y :: s) = y :: edges (y :: s) := by
  rw [edges, if_neg h]

/-- The first sample of a line is no edge. -/
theorem mem_tail_of_mem_edges (h : x ∈ edges line) : x ∈ line.tail := by
  fun_induction edges line with
  | case1 y z s _ ih => exact List.mem_cons_of_mem _ (ih h)
  | case2 y z s _ ih =>
    rcases List.mem_cons.1 h with rfl | h
    · exact List.mem_cons_self
    · exact List.mem_cons_of_mem _ (ih h)
  | case3 => cases h

theorem mem_of_mem_edges {y : Sample} (h : y ∈ edges (x :: s)) : y ∈ s :=
  mem_tail_of_mem_edges h

theorem edges_append (before : List Sample) (y : Sample) (s : List Sample) :
    edges (before ++ y :: s) = edges (before ++ [y]) ++ edges (y :: s) := by
  induction before with
  | nil => rfl
  | cons x before ih =>
    cases before with
    | nil =>
      change edges (x :: y :: s) = edges [x, y] ++ edges (y :: s)
      by_cases hy : y.level = x.level
      · rw [edges_same hy, edges_same hy]
        rfl
      · rw [edges_other hy, edges_other hy]
        rfl
    | cons z before =>
      simp only [List.cons_append] at ih ⊢
      by_cases hz : z.level = x.level
      · rw [edges_same hz, edges_same hz, ih]
      · rw [edges_other hz, edges_other hz, ih, List.cons_append]

/-- Only the sample before the unread ones matters for the edges among them. -/
theorem edges_unread {before : List Sample} {y : Sample} (hline : Rising (before ++ y :: s)) :
    (edges (before ++ y :: s)).filter (· ∈ s) = edges (y :: s) := by
  have hread : ∀ x ∈ edges (before ++ [y]), x ∉ s := by
    intro x hx hxs
    have hlater : Rising ((before ++ [y]) ++ s) := by simpa using hline
    have hxread : x ∈ before ++ [y] := List.mem_of_mem_tail (mem_tail_of_mem_edges hx)
    exact Nat.lt_irrefl _ ((List.pairwise_append.1 hlater).2.2 x hxread x hxs)
  have hleft : ∀ x ∈ edges (y :: s), x ∈ s := fun x hx => mem_of_mem_edges hx
  rw [edges_append, List.filter_append, List.filter_eq_nil_iff.2 (by simpa using hread),
    List.filter_eq_self.2 (by simpa using hleft), List.nil_append]

end Line

/-! ## Waits -/

section Wait

variable {edge : Edge} {deadline : Option Nat} {ahead s : List Sample} {x : Sample} {now : Nat}

/-- A wait stops at the first edge ahead, if it is of the right kind and in time. -/
theorem waited_found (hmatch : edge.matches x.level = true)
    (hdeadline : ∀ d, deadline = some d → x.time ≤ d) :
    waited edge deadline (x :: ahead) now s = ⟨.ok true, x.time, s.filter (x.time < ·.time)⟩ := by
  have hsoon : deadline.all (x.time ≤ ·) = true := by
    cases deadline with
    | none => rfl
    | some d => simpa using hdeadline d rfl
  rw [waited, List.find?_cons_of_pos (by simp [hmatch, hsoon])]

/-- An edge of the other kind only moves the position. -/
theorem waited_passed (hmatch : edge.matches x.level = false) :
    waited edge deadline (x :: ahead) now s = waited edge deadline ahead x.time s := by
  have hlast : ((x :: ahead).getLast?.map Sample.time).getD now =
      (ahead.getLast?.map Sample.time).getD x.time := by
    rw [List.getLast?_cons]
    cases ahead.getLast? <;> rfl
  rw [waited, List.find?_cons_of_neg (by simp [hmatch]), hlast, waited]

/-- A wait is given up at its deadline if all that is left is beyond it. -/
theorem waited_late {d : Nat} (hahead : ∀ y ∈ ahead, d < y.time)
    (hs : ∀ y ∈ x :: s, d < y.time) :
    waited edge (some d) ahead now (x :: s) = ⟨.ok false, d, x :: s⟩ := by
  have hfind : ahead.find? (fun y => edge.matches y.level && (some d).all (y.time ≤ ·)) = none := by
    rw [List.find?_eq_none]
    intro y hy
    simp [hahead y hy]
  have hany : (some d).filter (fun d => (x :: s).any (d < ·.time)) = some d := by
    simp [hs x List.mem_cons_self]
  rw [waited, hfind]
  dsimp only
  rw [hany]
  dsimp only
  rw [List.filter_eq_self.2 (by simpa using hs)]

/-- A sample that comes before all edges and the deadline makes no difference. -/
theorem waited_cons (hahead : ∀ y ∈ ahead, x.time ≤ y.time)
    (hdeadline : ∀ d, deadline = some d → x.time ≤ d) :
    waited edge deadline ahead now (x :: s) = waited edge deadline ahead now s := by
  have hbehind {t : Nat} (ht : x.time ≤ t) : (x :: s).filter (t < ·.time) = s.filter (t < ·.time) :=
    List.filter_cons_of_neg (by simpa using ht)
  unfold waited
  cases hfind : ahead.find? fun y => edge.matches y.level && deadline.all (y.time ≤ ·) with
  | some y => simp only [hbehind (hahead y (List.mem_of_find?_eq_some hfind))]
  | none =>
    cases deadline with
    | none => rfl
    | some d =>
      have hd := hdeadline d rfl
      simp only [Option.filter_some, List.any_cons, Nat.not_lt.2 hd, decide_false,
        Bool.false_or]
      by_cases hany : s.any (d < ·.time) = true
      · simp only [if_pos hany, hbehind hd]
      · simp only [if_neg hany]

/-- A wait is over if the next sample is beyond its deadline, and reads it otherwise. -/
theorem seek_step (edge : Edge) (deadline : Option Nat) (c : LineCursor) (x : Sample)
    (s : List Sample) :
    (∃ d, deadline = some d ∧ d < x.time ∧
      seek edge deadline c (x :: s) = (.ok false, { c with now := d }, x :: s)) ∨
    (∀ d, deadline = some d → x.time ≤ d) ∧ seek edge deadline c (x :: s) =
      if x.level = c.level then seek edge deadline c s
      else if edge.matches x.level then
        (.ok true, { c with level := x.level, now := max x.time c.now }, s)
      else seek edge deadline { c with level := x.level, now := max x.time c.now } s := by
  by_cases hlate : ∃ d, deadline = some d ∧ d < x.time
  · obtain ⟨d, rfl, hd⟩ := hlate
    exact .inl ⟨d, rfl, hd, seek_late hd⟩
  · have hsoon : ∀ d, deadline = some d → x.time ≤ d := fun d hd =>
      Nat.not_lt.1 fun hlt => hlate ⟨d, hd, hlt⟩
    exact .inr ⟨hsoon, seek_cons edge c x s hsoon⟩

/-- How a wait ends is told by the samples left and the level of the one before. -/
theorem shown_seek {c : LineCursor} (hx : x.level = c.level) (hs : Rising s)
    (hnow : ∀ y ∈ s, c.now ≤ y.time) :
    shown (seek edge deadline c s) = waited edge deadline (edges (x :: s)) c.now s := by
  induction s generalizing x c with
  | nil =>
    rw [seek_nil]
    cases deadline <;> rfl
  | cons y s ih =>
    obtain ⟨hlater, hrest⟩ := List.pairwise_cons.1 hs
    rcases seek_step edge deadline c y s with ⟨d, rfl, hd, hseek⟩ | ⟨hsoon, hseek⟩
    · have hall : ∀ z ∈ y :: s, d < z.time := fun z hz =>
        Nat.lt_of_lt_of_le hd (hs.ahead (Nat.le_refl _) z hz)
      rw [hseek, waited_late (fun z hz => hall z (mem_of_mem_edges hz)) hall]
      rfl
    have hahead : ∀ z ∈ edges (y :: s), y.time ≤ z.time := fun z hz =>
      Nat.le_of_lt (hlater z (mem_of_mem_edges hz))
    rw [hseek]
    by_cases hy : y.level = c.level
    · rw [if_pos hy, edges_same (hy.trans hx.symm), waited_cons hahead hsoon]
      exact ih hy hrest fun z hz => hnow z (List.mem_cons_of_mem _ hz)
    rw [if_neg hy, edges_other (fun h => hy (h.trans hx)),
      Nat.max_eq_left (hnow y List.mem_cons_self)]
    by_cases hmatch : edge.matches y.level = true
    · rw [if_pos hmatch, waited_found hmatch hsoon, List.filter_cons_of_neg (by simp),
        List.filter_eq_self.2 (by simpa using hlater)]
      rfl
    · rw [if_neg hmatch, waited_passed (Bool.eq_false_iff.2 hmatch), waited_cons hahead hsoon]
      exact ih rfl hrest fun z hz => Nat.le_of_lt (hlater z hz)

end Wait

/-! ## Following a line -/

/-- The sample before those left of a line has a level. -/
def LevelBefore (line : List Sample) (level : Bool) (s : List Sample) : Prop :=
  ∃ before y, line = before ++ y :: s ∧ y.level = level

/-- The cursor reads the wave of its line from its position on, and has the level of the sample
before those it has left. -/
structure Follows (line : List Sample) (c : LineCursor) (s : List Sample) : Prop
    extends OnWave (levelOf line) c s where
  before : LevelBefore line c.level s

section Follows

variable {line s : List Sample} {c : LineCursor} {x : Sample}

theorem LevelBefore.next {level : Bool} (h : LevelBefore line level (x :: s)) :
    LevelBefore line x.level s := by
  obtain ⟨before, y, hline, _⟩ := h
  exact ⟨before ++ [y], x, by simpa using hline, rfl⟩

theorem LevelBefore.advance (target : Nat) (h : LevelBefore line c.level s) :
    LevelBefore line (advance target c s).2.1.level (advance target c s).2.2 := by
  induction s generalizing c with
  | nil =>
    rw [advance_nil]
    exact h
  | cons x s ih =>
    rw [advance_cons]
    split
    · exact h
    split
    · exact h
    · exact ih h.next

/-- A skip leaves the samples from its end on. -/
theorem unread_advance (c : LineCursor) (target : Nat) (hs : Rising s) :
    (advance target c s).2.2 = s.filter (target ≤ ·.time) := by
  induction s generalizing c with
  | nil => rw [advance_nil]; rfl
  | cons x s ih =>
    have hall (h : target ≤ x.time) : (x :: s).filter (target ≤ ·.time) = x :: s :=
      List.filter_eq_self.2 (by simpa using hs.ahead h)
    rw [advance_cons]
    split
    · exact (hall (Nat.le_of_lt ‹_›)).symm
    split
    · exact (hall (Nat.le_of_eq (Eq.symm ‹_›))).symm
    · rw [ih _ (List.pairwise_cons.1 hs).2, List.filter_cons_of_neg]
      simp only [decide_eq_true_eq]
      omega

namespace Follows

/-- The first sample of a line gives the position and the level to begin with. -/
theorem begin (hline : Rising (x :: s)) : Follows (x :: s) (justRead x) s where
  toOnWave := levelOf_eq hline ▸ (HasRead.begin hline).onWave hline
  before := ⟨[], x, rfl, rfl⟩

theorem read_same (h : Follows line c (x :: s)) (hx : x.level = c.level) : Follows line c s where
  toOnWave := h.toOnWave.skip_same hx
  before := hx ▸ h.before.next

theorem read (h : Follows line c (x :: s)) : Follows line ⟨x.time, x.level, true⟩ s where
  toOnWave := h.toOnWave.read.toOnWave
  before := h.before.next

/-- A cursor may stand at any time up to its next sample. -/
theorem stand {d : Nat} (h : Follows line c (x :: s)) (hnow : c.now ≤ d) (hd : d < x.time) :
    Follows line { c with now := d } (x :: s) where
  primed := h.primed
  rising := h.rising
  ahead := h.rising.ahead (Nat.le_of_lt hd)
  agrees t ht := h.agrees t (Nat.le_trans hnow ht)
  before := h.before

theorem seek {edge : Edge} {deadline : Option Nat} (h : Follows line c s)
    (hdeadline : ∀ d, deadline = some d → c.now ≤ d) :
    Follows line (seek edge deadline c s).2.1 (seek edge deadline c s).2.2 := by
  induction s generalizing c with
  | nil =>
    rw [seek_nil]
    exact h
  | cons x s ih =>
    rcases seek_step edge deadline c x s with ⟨d, rfl, hd, hseek⟩ | ⟨hsoon, hseek⟩
    · rw [hseek]
      exact h.stand (hdeadline d rfl) hd
    rw [hseek]
    split
    · rename_i hx
      exact ih (h.read_same hx) hdeadline
    rw [Nat.max_eq_left (h.ahead x List.mem_cons_self), h.primed]
    split
    · exact h.read
    · exact ih h.read hsoon

theorem skip (h : Follows line c s) (count : Nat) :
    shown (skip count c s) = (Call.skip count).outcome line c.now s ∧
      Follows line (skip count c s).2.1 (skip count c s).2.2 := by
  obtain ⟨c', rest, hskip, hnow, hwave⟩ := skip_onWave h.toOnWave count
  have hunread := unread_advance c (c.now + count) h.rising
  have hbefore := h.before.advance (c.now + count)
  rw [← skip_primed h.primed, hskip] at hunread hbefore
  rw [hskip]
  refine ⟨?_, hwave, hbefore⟩
  rw [shown, hnow, hunread]
  rfl

theorem wait (hline : Rising line) (h : Follows line c s) (edge : Edge) (budget : Option Nat) :
    shown (waitEdge edge budget c s) = (Call.wait edge budget).outcome line c.now s ∧
      Follows line (waitEdge edge budget c s).2.1 (waitEdge edge budget c s).2.2 := by
  obtain ⟨before, y, hsplit, hy⟩ := h.before
  rw [waitEdge_primed h.primed]
  constructor
  · rw [shown_seek hy h.rising h.ahead, Call.outcome, hsplit, edges_unread (hsplit ▸ hline)]
  · refine h.seek fun d hd => ?_
    obtain ⟨n, _, rfl⟩ := Option.map_eq_some_iff.1 hd
    exact Nat.le_add_right _ _

/-- **A call** has its outcome from any position that calls lead to, and leads to another. -/
theorem run (hline : Rising line) (h : Follows line c s) (call : Call) :
    shown (call.run c s) = call.outcome line c.now s ∧
      Follows line (call.run c s).2.1 (call.run c s).2.2 := by
  cases call with
  | skip count => exact h.skip count
  | wait edge budget => exact h.wait hline edge budget

/-- Calls one after the other have the outcomes that the line alone tells. -/
theorem outcomes (hline : Rising line) (h : Follows line c s) (calls : List Call) :
    outcomes c s calls = expected line c.now s calls := by
  induction calls generalizing c s with
  | nil => rfl
  | cons call calls ih =>
    obtain ⟨houtcome, hfollows⟩ := h.run hline call
    rw [LineCursor.outcomes, expected, ih hfollows, ← houtcome]
    rfl

end Follows

/-- **Any calls of a cursor.**  From the beginning of a line whose samples rise in time, skips and
waits in any order have the outcomes that the line alone tells.  The first sample of the line is
read with the first call; it gives the position and the level to begin with, and the others are
left. -/
theorem outcomes_fresh {first : Sample} (hline : Rising (first :: s)) (calls : List Call) :
    outcomes {} (first :: s) calls = expected (first :: s) first.time s calls := by
  have hbegun : outcomes {} (first :: s) calls = outcomes (justRead first) s calls := by
    cases calls with
    | nil => rfl
    | cons call calls => cases call <;> rfl
  exact hbegun.trans ((Follows.begin hline).outcomes hline calls)

/-- A skip that ends on a sample, an edge at no distance, a repeated level, an edge right at its
deadline and the end of the line. -/
theorem outcomes_fresh_seven :
    outcomes {} [⟨3, true⟩, ⟨5, true⟩, ⟨9, false⟩, ⟨12, false⟩, ⟨20, true⟩]
        [.skip 0, .skip 6, .wait .falling (some 0), .wait .rising (some 10),
          .wait .rising (some 1), .wait .either none, .skip 7] =
      [⟨.ok true, 3, [⟨5, true⟩, ⟨9, false⟩, ⟨12, false⟩, ⟨20, true⟩]⟩,
        ⟨.ok false, 9, [⟨9, false⟩, ⟨12, false⟩, ⟨20, true⟩]⟩,
        ⟨.ok true, 9, [⟨12, false⟩, ⟨20, true⟩]⟩,
        ⟨.ok false, 19, [⟨20, true⟩]⟩,
        ⟨.ok true, 20, []⟩,
        ⟨.error .endOfStream, 20, []⟩,
        ⟨.ok true, 27, []⟩] :=
  (outcomes_fresh (by simp) _).trans rfl

end Follows

end LineCursor

end BusDecode
