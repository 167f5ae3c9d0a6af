import BusDecode.Sample
import BusDecode.Stream.Source

/-!
# Line cursors

A position on a line that only moves forward: to the next edge, or by a number of samples.  A
sample that starts exactly at the position is left unread, so an edge that falls on the end of a
skip is still seen by the wait that follows.
-/

set_option autoImplicit false

namespace BusDecode

/-- Which change of level a wait stops at. -/
inductive Edge where
  | falling
  | rising
  | either
  deriving DecidableEq, Repr

/-- Whether a change to a level is an edge of this kind. -/
def Edge.matches (edge : Edge) (level : Bool) : Bool :=
  match edge with
  | falling => !level
  | rising => level
  | either => true

/-- A position on a line, and the level of the line as far as it has been read. -/
structure LineCursor where
  now : Nat := 0
  level : Bool := false
  /-- the first sample has been read: it gives the position and level to begin with -/
  primed : Bool := false
  deriving DecidableEq, Repr

namespace LineCursor

variable {σ : Type} [Source σ Sample]

/-- Reads the first sample of the line unless that has happened. -/
def prime (c : LineCursor) (s : σ) : Except Halt Unit × LineCursor × σ :=
  if c.primed then (.ok (), c, s) else
  match Source.recv s with
  | (.ok first, s) => (.ok (), ⟨first.time, first.level, true⟩, s)
  | (.error e, s) => (.error e, c, s)

/-- Reads on to the next matching edge, or up to a deadline if the next sample is beyond it. -/
def seek (edge : Edge) (deadline : Option Nat) (c : LineCursor) (s : σ) :
    Except Halt Bool × LineCursor × σ :=
  match hp : Source.peek s with
  | (.error e, s') => (.error e, c, s')
  | (.ok next, s') =>
    match deadline.filter (· < next.time) with
    | some late => (.ok false, { c with now := late }, s')
    | none =>
      match hr : Source.recv s' with
      | (.error e, s'') => (.error e, c, s'')
      | (.ok x, s'') =>
        have : Source.size s'' < Source.size s := by
          have hle := Source.size_peek_le s
          have hlt := Source.size_recv_lt (s := s') (a := x) (by rw [hr])
          rw [hp] at hle
          rw [hr] at hlt
          exact Nat.lt_of_lt_of_le hlt hle
        if next.level = c.level then seek edge deadline c s'' else
        let c' := { c with level := next.level, now := max next.time c.now }
        if edge.matches next.level then (.ok true, c', s'') else seek edge deadline c' s''
termination_by Source.size s

/-- Waits for an edge.  With a budget the wait is given up once that many samples have passed: the
position is then the deadline and the answer is `false`. -/
def waitEdge (edge : Edge) (budget : Option Nat) (c : LineCursor) (s : σ) :
    Except Halt Bool × LineCursor × σ :=
  match prime c s with
  | (.error e, c, s) => (.error e, c, s)
  | (.ok (), c, s) => seek edge (budget.map (c.now + ·)) c s

/-- Reads on to a target position and answers with the level there. -/
def advance (target : Nat) (c : LineCursor) (s : σ) : Except Halt Bool × LineCursor × σ :=
  match hp : Source.peek? s with
  | (.error e, s') => (.error e, c, s')
  | (.ok none, s') => (.ok c.level, { c with now := target }, s')
  | (.ok (some next), s') =>
    if target < next.time then (.ok c.level, { c with now := target }, s') else
    if next.time = target then (.ok next.level, { c with now := target }, s') else
    match hr : Source.recv s' with
    | (.error e, s'') => (.error e, c, s'')
    | (.ok x, s'') =>
      have : Source.size s'' < Source.size s := by
        have hle := Source.size_peek?_le s
        have hlt := Source.size_recv_lt (s := s') (a := x) (by rw [hr])
        rw [hp] at hle
        rw [hr] at hlt
        exact Nat.lt_of_lt_of_le hlt hle
      advance target { c with level := next.level } s''
termination_by Source.size s

/-- Moves forward by a number of samples and answers with the level there.  Past the end of the
stream the last level holds. -/
def skip (count : Nat) (c : LineCursor) (s : σ) : Except Halt Bool × LineCursor × σ :=
  match prime c s with
  | (.error e, c, s) => (.error e, c, s)
  | (.ok (), c, s) => advance (c.now + count) c s

/-! ## What a move leaves unread -/

theorem size_prime_le (c : LineCursor) (s : σ) :
    Source.size (prime c s).2.2 ≤ Source.size s := by
  have := Source.size_recv_le s
  unfold prime
  split
  · exact Nat.le_refl _
  · split <;> simp_all

theorem size_seek_le (edge : Edge) (deadline : Option Nat) (c : LineCursor) (s : σ) :
    Source.size (seek edge deadline c s).2.2 ≤ Source.size s := by
  fun_induction seek edge deadline c s with
  | case1 c s e s' hp => simpa [hp] using Source.size_peek_le s
  | case2 c s next s' hp late hd => simpa [hp] using Source.size_peek_le s
  | case3 c s next s' hp hd e s'' hr =>
    have hle := Source.size_peek_le s
    have hle' := Source.size_recv_le s'
    rw [hp] at hle
    rw [hr] at hle'
    exact Nat.le_trans hle' hle
  | case4 c s next s' hp hd x s'' hr hlt hlevel ih => omega
  | case5 c s next s' hp hd x s'' hr hlt hlevel c' hm =>
    dsimp only
    omega
  | case6 c s next s' hp hd x s'' hr hlt hlevel c' hm ih => omega

/-- An edge that was found has been read. -/
theorem size_seek_lt {edge : Edge} {deadline : Option Nat} {c : LineCursor} {s : σ}
    (h : (seek edge deadline c s).1 = .ok true) :
    Source.size (seek edge deadline c s).2.2 < Source.size s := by
  fun_induction seek edge deadline c s with
  | case1 c s e s' hp => simp at h
  | case2 c s next s' hp late hd => simp at h
  | case3 c s next s' hp hd e s'' hr => simp at h
  | case4 c s next s' hp hd x s'' hr hlt hlevel ih =>
    have := ih h
    omega
  | case5 c s next s' hp hd x s'' hr hlt hlevel c' hm =>
    dsimp only
    omega
  | case6 c s next s' hp hd x s'' hr hlt hlevel c' hm ih =>
    have := ih h
    omega

/-- A wait without a deadline never gives up. -/
theorem seek_ne_false {edge : Edge} {deadline : Option Nat} {c : LineCursor} {s : σ}
    (h : deadline = none) : (seek edge deadline c s).1 ≠ .ok false := by
  fun_induction seek edge deadline c s with
  | case1 => simp
  | case2 c s next s' hp late hl => simp [h] at hl
  | case3 => simp
  | case4 c s next s' hp hl x s'' hr hlt hlevel ih => exact ih
  | case5 => simp
  | case6 c s next s' hp hl x s'' hr hlt hlevel c' hm ih => exact ih

theorem size_waitEdge_le (edge : Edge) (budget : Option Nat) (c : LineCursor) (s : σ) :
    Source.size (waitEdge edge budget c s).2.2 ≤ Source.size s := by
  have hp := size_prime_le c s
  unfold waitEdge
  split
  · simp_all
  · rename_i c' s' hprime
    rw [hprime] at hp
    exact Nat.le_trans (size_seek_le ..) hp

/-- A wait without a budget that ends well has read at least one sample. -/
theorem size_waitEdge_lt {edge : Edge} {c : LineCursor} {s : σ} {b : Bool}
    (h : (waitEdge edge none c s).1 = .ok b) :
    Source.size (waitEdge edge none c s).2.2 < Source.size s := by
  have hp := size_prime_le c s
  unfold waitEdge at h ⊢
  split at h
  · simp at h
  · rename_i c' s' hprime
    rw [hprime] at hp
    dsimp only [Option.map] at h ⊢
    cases b with
    | false => exact absurd h (seek_ne_false rfl)
    | true => exact Nat.lt_of_lt_of_le (size_seek_lt h) hp

theorem size_advance_le (target : Nat) (c : LineCursor) (s : σ) :
    Source.size (advance target c s).2.2 ≤ Source.size s := by
  fun_induction advance target c s with
  | case1 c s e s' hp => simpa [hp] using Source.size_peek?_le s
  | case2 c s s' hp => simpa [hp] using Source.size_peek?_le s
  | case3 c s next s' hp hlt => simpa [hp] using Source.size_peek?_le s
  | case4 c s next s' hp hlt heq => simpa [hp] using Source.size_peek?_le s
  | case5 c s next s' hp hlt heq e s'' hr =>
    have hle := Source.size_peek?_le s
    have hle' := Source.size_recv_le s'
    rw [hp] at hle
    rw [hr] at hle'
    exact Nat.le_trans hle' hle
  | case6 c s next s' hp hlt heq x s'' hr hsize ih => omega

theorem size_skip_le (count : Nat) (c : LineCursor) (s : σ) :
    Source.size (skip count c s).2.2 ≤ Source.size s := by
  have hp := size_prime_le c s
  unfold skip
  split
  · simp_all
  · rename_i c' s' hprime
    rw [hprime] at hp
    exact Nat.le_trans (size_advance_le ..) hp

end LineCursor

end BusDecode
