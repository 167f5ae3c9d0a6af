import BusDecode.LineCursor

/-!
# A cursor on a wave

A list of samples stands for the level of a line at every time (`levelAt`).  A cursor is on a wave
(`OnWave`) if what it has read and what it has left agree with the wave from its position on; then a
skip answers with the level of the wave there, and a wait stops where the wave changes.  A skip may
leave a sample at its very end unread, which is why only a `Settled` cursor knows its own level.
-/

set_option autoImplicit false

namespace BusDecode

namespace LineCursor

/-! ## Samples as a wave -/

/-- The level at a time, from a level before the first sample. -/
def levelAt (level : Bool) : List Sample → Nat → Bool
  | [], _ => level
  | x :: rest, t => if x.time ≤ t then levelAt x.level rest t else level

/-- Times rise from sample to sample. -/
abbrev Rising (s : List Sample) : Prop :=
  s.Pairwise fun x y => x.time < y.time

theorem levelAt_before {level : Bool} {s : List Sample} {t : Nat}
    (h : ∀ x ∈ s, t < x.time) : levelAt level s t = level := by
  cases s with
  | nil => rfl
  | cons x rest => exact if_neg (Nat.not_le.2 (h x List.mem_cons_self))

theorem levelAt_after {x : Sample} {s : List Sample} {t : Nat} (level : Bool) (h : x.time ≤ t) :
    levelAt level (x :: s) t = levelAt x.level s t :=
  if_pos h

theorem levelAt_cons_same {x : Sample} {s : List Sample} (hs : Rising (x :: s)) (t : Nat) :
    levelAt x.level (x :: s) t = levelAt x.level s t := by
  by_cases ht : x.time ≤ t
  · exact levelAt_after _ ht
  · have hlater : ∀ y ∈ x :: s, t < y.time := by
      intro y hy
      rcases List.mem_cons.1 hy with rfl | hy
      · omega
      · have := (List.pairwise_cons.1 hs).1 y hy
        omega
    rw [levelAt_before hlater, levelAt_before fun y hy => hlater y (List.mem_cons_of_mem _ hy)]

/-- What has been passed of a line no longer matters, but for the last level. -/
theorem levelAt_passed {level : Bool} {pre post : List Sample} {y : Sample} {t : Nat}
    (hpre : ∀ x ∈ pre, x.time ≤ t) (hy : y.time ≤ t) :
    levelAt level (pre ++ y :: post) t = levelAt y.level post t := by
  induction pre generalizing level with
  | nil => exact levelAt_after level hy
  | cons x pre ih =>
    rw [List.cons_append, levelAt_after level (hpre x List.mem_cons_self)]
    exact ih fun z hz => hpre z (List.mem_cons_of_mem _ hz)

/-! ## Cursors -/

/-- A cursor that has begun does not begin again. -/
theorem prime_primed {σ : Type} [Source σ Sample] {c : LineCursor} {s : σ} (h : c.primed = true) :
    prime c s = (.ok (), c, s) :=
  if_pos h

theorem skip_primed {σ : Type} [Source σ Sample] {c : LineCursor} {s : σ} (h : c.primed = true)
    (count : Nat) : skip count c s = advance (c.now + count) c s := by
  unfold skip
  rw [prime_primed h]

theorem waitEdge_primed {σ : Type} [Source σ Sample] {c : LineCursor} {s : σ} (h : c.primed = true)
    (edge : Edge) (budget : Option Nat) :
    waitEdge edge budget c s = seek edge (budget.map (c.now + ·)) c s := by
  unfold waitEdge
  rw [prime_primed h]

/-- A cursor that has begun reads the wave `wave` from the samples it has left. -/
structure OnWave (wave : Nat → Bool) (c : LineCursor) (s : List Sample) : Prop where
  primed : c.primed = true
  rising : Rising s
  ahead : ∀ x ∈ s, c.now ≤ x.time
  agrees : ∀ t, c.now ≤ t → levelAt c.level s t = wave t

/-- What has been read reaches up to the position and not short of it. -/
structure Settled (wave : Nat → Bool) (c : LineCursor) (s : List Sample) : Prop
    extends OnWave wave c s where
  past : ∀ x ∈ s, c.now < x.time

section Waves

variable {wave : Nat → Bool} {c : LineCursor} {s : List Sample}

theorem Settled.level (h : Settled wave c s) : c.level = wave c.now := by
  rw [← h.agrees c.now (Nat.le_refl _), levelAt_before h.past]

/-- The cursor on its samples once the first of them has been read as its own level. -/
theorem OnWave.skip_same {x : Sample} (h : OnWave wave c (x :: s)) (hx : x.level = c.level) :
    OnWave wave c s where
  primed := h.primed
  rising := (List.pairwise_cons.1 h.rising).2
  ahead y hy := h.ahead y (List.mem_cons_of_mem _ hy)
  agrees t ht := by
    rw [← h.agrees t ht, ← hx]
    exact (levelAt_cons_same h.rising t).symm

/-- The cursor moved on to the first of its samples. -/
theorem OnWave.read {x : Sample} (h : OnWave wave c (x :: s)) :
    Settled wave ⟨x.time, x.level, true⟩ s where
  primed := rfl
  rising := (List.pairwise_cons.1 h.rising).2
  ahead y hy := Nat.le_of_lt ((List.pairwise_cons.1 h.rising).1 y hy)
  agrees t ht := by
    have hx := h.ahead x List.mem_cons_self
    rw [← h.agrees t (Nat.le_trans hx ht)]
    exact (levelAt_after _ ht).symm
  past y hy := (List.pairwise_cons.1 h.rising).1 y hy

theorem OnWave.level_at {x : Sample} (h : OnWave wave c (x :: s)) : wave x.time = x.level :=
  h.read.level.symm

/-- A wave that changes does so at a sample that is still to be read. -/
theorem OnWave.change_le {level : Bool} {e : Nat} (h : OnWave wave c s) (hnow : c.now < e)
    (hfirst : wave c.now = level) (hat : wave e = !level) :
    ∃ x rest, s = x :: rest ∧ x.time ≤ e := by
  have hlate : ¬∀ x ∈ s, e < x.time := by
    intro hall
    have hstill : wave c.now = wave e := by
      rw [← h.agrees e (Nat.le_of_lt hnow), ← h.agrees c.now (Nat.le_refl _),
        levelAt_before hall, levelAt_before fun x hx => Nat.lt_trans hnow (hall x hx)]
    rw [hfirst, hat] at hstill
    cases level <;> cases hstill
  cases s with
  | nil => exact absurd (by simp) hlate
  | cons x rest =>
    refine ⟨x, rest, rfl, Nat.not_lt.1 fun hlt => hlate ?_⟩
    exact List.forall_mem_cons.2
      ⟨hlt, fun y hy => Nat.lt_trans hlt ((List.pairwise_cons.1 h.rising).1 y hy)⟩

end Waves

/-! ## Skipping -/

section Skip

variable {wave : Nat → Bool}

theorem advance_nil (target : Nat) (c : LineCursor) :
    advance target c ([] : List Sample) = (.ok c.level, { c with now := target }, []) := by
  rw [advance]
  rfl

theorem advance_cons (target : Nat) (c : LineCursor) (x : Sample) (s : List Sample) :
    advance target c (x :: s) =
      if target < x.time then (.ok c.level, { c with now := target }, x :: s)
      else if x.time = target then (.ok x.level, { c with now := target }, x :: s)
      else advance target { c with level := x.level } s := by
  rw [advance]
  rfl

theorem advance_agrees {target : Nat} {c : LineCursor} {s : List Sample} (hprimed : c.primed = true)
    (hs : Rising s) (hagrees : ∀ t, target ≤ t → levelAt c.level s t = wave t) :
    ∃ c' rest, advance target c s = (.ok (wave target), c', rest) ∧ c'.now = target ∧
      OnWave wave c' rest := by
  induction s generalizing c with
  | nil =>
    refine ⟨{ c with now := target }, [], ?_, rfl, hprimed, hs, by simp, hagrees⟩
    rw [advance_nil, ← hagrees target (Nat.le_refl _)]
    rfl
  | cons x s ih =>
    obtain ⟨hlater, hrest⟩ := List.pairwise_cons.1 hs
    rw [advance_cons]
    by_cases hlt : target < x.time
    · have hall : ∀ y ∈ x :: s, target < y.time :=
        List.forall_mem_cons.2 ⟨hlt, fun y hy => Nat.lt_trans hlt (hlater y hy)⟩
      refine ⟨{ c with now := target }, x :: s, ?_, rfl, hprimed, hs, ?_, hagrees⟩
      · rw [if_pos hlt, ← hagrees target (Nat.le_refl _), levelAt_before hall]
      · intro y hy
        exact Nat.le_of_lt (hall y hy)
    rw [if_neg hlt]
    have hle : x.time ≤ target := Nat.not_lt.1 hlt
    by_cases heq : x.time = target
    · subst heq
      refine ⟨{ c with now := x.time }, x :: s, ?_, rfl, hprimed, hs, ?_, hagrees⟩
      · rw [if_pos rfl, ← hagrees x.time hle, levelAt_after _ hle, levelAt_before hlater]
      · exact List.forall_mem_cons.2 ⟨hle, fun y hy => Nat.le_of_lt (hlater y hy)⟩
    · rw [if_neg heq]
      refine ih hprimed hrest ?_
      intro t ht
      rw [← hagrees t ht, levelAt_after _ (Nat.le_trans hle ht)]

/-- A skip answers with the level of the wave at its end, where the cursor then is. -/
theorem skip_onWave {c : LineCursor} {s : List Sample} (h : OnWave wave c s) (n : Nat) :
    ∃ c' rest, skip n c s = (.ok (wave (c.now + n)), c', rest) ∧ c'.now = c.now + n ∧
      OnWave wave c' rest := by
  unfold skip
  rw [prime_primed h.primed]
  apply advance_agrees h.primed h.rising
  intro t ht
  exact h.agrees t (Nat.le_trans (Nat.le_add_right _ _) ht)

end Skip

/-! ## Waiting for a change -/

section Wait

variable {wave : Nat → Bool}

theorem seek_nil (edge : Edge) (deadline : Option Nat) (c : LineCursor) :
    seek edge deadline c ([] : List Sample) = (.error .endOfStream, c, []) := by
  rw [seek]
  rfl

theorem seek_cons (edge : Edge) (c : LineCursor) (x : Sample) (s : List Sample)
    {deadline : Option Nat} (h : ∀ d, deadline = some d → x.time ≤ d) :
    seek edge deadline c (x :: s) =
      if x.level = c.level then seek edge deadline c s
      else if edge.matches x.level then
        (.ok true, { c with level := x.level, now := max x.time c.now }, s)
      else seek edge deadline { c with level := x.level, now := max x.time c.now } s := by
  have hfilter : deadline.filter (· < x.time) = none := by
    cases deadline with
    | none => rfl
    | some d => simp [h d rfl]
  rw [seek]
  simp only [Source.peek_cons, hfilter]
  rfl

/-- A wait stops where the wave changes, if that is an edge of the right kind.  The level the
cursor has may be out of date as long as the level of the wave is none to stop at. -/
theorem seek_change {edge : Edge} {deadline : Option Nat} {level : Bool} {e : Nat} {c : LineCursor}
    {s : List Sample} (h : OnWave wave c s) (hnow : c.now < e)
    (hbefore : ∀ t, c.now ≤ t → t < e → wave t = level) (hat : wave e = !level)
    (hmatch : edge.matches (!level) = true) (hquiet : c.level = level ∨ edge.matches level = false)
    (hdeadline : ∀ d, deadline = some d → e ≤ d) :
    ∃ rest, seek edge deadline c s = (.ok true, ⟨e, !level, true⟩, rest) ∧
      Settled wave ⟨e, !level, true⟩ rest := by
  induction s generalizing c with
  | nil =>
    obtain ⟨x, rest, hs, _⟩ := h.change_le hnow (hbefore c.now (Nat.le_refl _) hnow) hat
    cases hs
  | cons x s ih =>
    have hx := h.ahead x List.mem_cons_self
    have hxe : x.time ≤ e := by
      obtain ⟨y, rest, hs, hy⟩ := h.change_le hnow (hbefore c.now (Nat.le_refl _) hnow) hat
      cases hs
      exact hy
    rw [seek_cons edge c x s fun d hd => Nat.le_trans hxe (hdeadline d hd)]
    by_cases hlevel : x.level = c.level
    · rw [if_pos hlevel]
      exact ih (h.skip_same hlevel) hnow hbefore hquiet
    rw [if_neg hlevel, Nat.max_eq_left hx]
    rcases Nat.lt_or_eq_of_le hxe with hlt | rfl
    · -- a rise that was not yet read
      have hxlevel : x.level = level := by rw [← h.level_at, hbefore x.time hx hlt]
      have hstale : edge.matches level = false :=
        hquiet.resolve_left fun hc => hlevel (hxlevel.trans hc.symm)
      rw [hxlevel, if_neg (by simp [hstale]), h.primed]
      have hread := h.read.toOnWave
      rw [hxlevel] at hread
      exact ih hread hlt (fun t ht => hbefore t (Nat.le_trans hx ht)) (.inl rfl)
    · have hxlevel : x.level = !level := by rw [← h.level_at, hat]
      have hread := h.read
      rw [hxlevel] at hread ⊢
      rw [if_pos hmatch, h.primed]
      exact ⟨s, rfl, hread⟩

/-- A wait that finds its edge never again reads to the end of the line. -/
theorem seek_still {edge : Edge} {level : Bool} {c : LineCursor} {s : List Sample}
    (h : OnWave wave c s) (hwave : ∀ t, c.now ≤ t → wave t = level)
    (hquiet : edge.matches level = false) :
    ∃ c' rest, seek edge none c s = (.error .endOfStream, c', rest) := by
  induction s generalizing c with
  | nil => exact ⟨c, [], seek_nil edge none c⟩
  | cons x s ih =>
    have hx := h.ahead x List.mem_cons_self
    have hxlevel : x.level = level := by rw [← h.level_at, hwave x.time hx]
    rw [seek_cons edge c x s fun d hd => by cases hd]
    by_cases hlevel : x.level = c.level
    · rw [if_pos hlevel]
      exact ih (h.skip_same hlevel) hwave
    · rw [if_neg hlevel, Nat.max_eq_left hx, hxlevel, if_neg (by simp [hquiet]), h.primed]
      have hread := h.read.toOnWave
      rw [hxlevel] at hread
      exact ih hread fun t ht => hwave t (Nat.le_trans hx ht)

/-- The wave that a cursor reads from a position on, once it has begun. -/
def Reads (wave : Nat → Bool) (now : Nat) (c : LineCursor) (s : List Sample) : Prop :=
  ∃ c' rest, prime c s = (.ok (), c', rest) ∧ c'.now = now ∧ OnWave wave c' rest

theorem OnWave.reads {c : LineCursor} {s : List Sample} (h : OnWave wave c s) :
    Reads wave c.now c s :=
  ⟨c, s, prime_primed h.primed, rfl, h⟩

/-- A fresh cursor starts with the first sample. -/
theorem reads_fresh {first : Sample} {s : List Sample} (h : Rising (first :: s)) :
    Reads (levelAt first.level s) first.time {} (first :: s) := by
  refine ⟨⟨first.time, first.level, true⟩, s, rfl, rfl, rfl, (List.pairwise_cons.1 h).2, ?_, ?_⟩
  · intro x hx
    exact Nat.le_of_lt ((List.pairwise_cons.1 h).1 x hx)
  · intro t _
    rfl

section Fall

variable {now : Nat} {c : LineCursor} {s : List Sample}

theorem waitEdge_fall {e : Nat} (h : Reads wave now c s) (hnow : now < e)
    (hhigh : ∀ t, now ≤ t → t < e → wave t = true) (hlow : wave e = false) :
    ∃ rest, waitEdge .falling none c s = (.ok true, ⟨e, false, true⟩, rest) ∧
      Settled wave ⟨e, false, true⟩ rest := by
  obtain ⟨c', s', hprime, rfl, hwave⟩ := h
  unfold waitEdge
  rw [hprime]
  exact seek_change hwave hnow hhigh hlow rfl (.inr rfl) (by simp)

theorem waitEdge_still (h : Reads wave now c s) (hhigh : ∀ t, now ≤ t → wave t = true) :
    ∃ c' rest, waitEdge .falling none c s = (.error .endOfStream, c', rest) := by
  obtain ⟨c', s', hprime, rfl, hwave⟩ := h
  unfold waitEdge
  rw [hprime]
  exact seek_still hwave hhigh rfl

end Fall

theorem waitEdge_change {edge : Edge} {budget e : Nat} {level : Bool} {c : LineCursor}
    {s : List Sample} (h : Settled wave c s) (hnow : c.now < e) (hbudget : e ≤ c.now + budget)
    (hbefore : ∀ t, c.now ≤ t → t < e → wave t = level) (hat : wave e = !level)
    (hmatch : edge.matches (!level) = true) :
    ∃ rest, waitEdge edge (some budget) c s = (.ok true, ⟨e, !level, true⟩, rest) ∧
      Settled wave ⟨e, !level, true⟩ rest := by
  have hlevel : c.level = level := by rw [h.level, hbefore c.now (Nat.le_refl _) hnow]
  unfold waitEdge
  rw [prime_primed h.primed]
  refine seek_change h.toOnWave hnow hbefore hat hmatch (.inl hlevel) ?_
  rintro d ⟨rfl⟩
  exact hbudget

end Wait

/-! ## Having begun -/

section Begun

variable {σ : Type} [Source σ Sample] {c : LineCursor} {s : σ}

theorem primed_seek (edge : Edge) (deadline : Option Nat) (c : LineCursor) (s : σ) :
    (seek edge deadline c s).2.1.primed = c.primed := by
  fun_induction seek edge deadline c s with
  | case1 => rfl
  | case2 => rfl
  | case3 => rfl
  | case4 c s next s' hp hd x s'' hr hlt hlevel ih => exact ih
  | case5 => rfl
  | case6 c s next s' hp hd x s'' hr hlt hlevel c' hm ih => exact ih

theorem primed_advance (target : Nat) (c : LineCursor) (s : σ) :
    (advance target c s).2.1.primed = c.primed := by
  fun_induction advance target c s with
  | case1 => rfl
  | case2 => rfl
  | case3 => rfl
  | case4 => rfl
  | case5 => rfl
  | case6 c s next s' hp hlt heq x s'' hr hsize ih => exact ih

theorem primed_waitEdge (h : c.primed = true) (edge : Edge) (budget : Option Nat) :
    (waitEdge edge budget c s).2.1.primed = true := by
  unfold waitEdge
  rw [prime_primed h]
  exact (primed_seek _ _ c s).trans h

theorem primed_skip (h : c.primed = true) (count : Nat) :
    (skip count c s).2.1.primed = true := by
  unfold skip
  rw [prime_primed h]
  exact (primed_advance _ c s).trans h

theorem primed_of_prime {s' : σ} {c' : LineCursor} (h : prime c s = (.ok (), c', s')) :
    c'.primed = true := by
  unfold prime at h
  split at h
  · cases h
    assumption
  · split at h
    · cases h
      rfl
    · cases h

/-- A wait that ends well has begun. -/
theorem primed_of_waitEdge {edge : Edge} {budget : Option Nat} {b : Bool}
    (h : (waitEdge edge budget c s).1 = .ok b) : (waitEdge edge budget c s).2.1.primed = true := by
  unfold waitEdge at h ⊢
  rcases hprime : prime c s with ⟨_ | _, c', s'⟩
  · rw [hprime] at h
    cases h
  · exact (primed_seek _ _ c' s').trans (primed_of_prime hprime)

/-- A line holds its last level past its end, so a skip along it never fails. -/
theorem skip_ok {s : List Sample} (h : c.primed = true) (count : Nat) :
    ∃ b, (skip count c s).1 = .ok b := by
  unfold skip
  rw [prime_primed h]
  dsimp only
  generalize c.now + count = target
  induction s generalizing c with
  | nil =>
    rw [advance_nil]
    exact ⟨_, rfl⟩
  | cons x s ih =>
    rw [advance_cons]
    split
    · exact ⟨_, rfl⟩
    split
    · exact ⟨_, rfl⟩
    · exact ih h

end Begun

/-! ## Never back -/

section Onward

variable {σ : Type} [Source σ Sample] {c : LineCursor}

/-- A cursor that has not begun is where every line begins. -/
def Placed (c : LineCursor) : Prop :=
  c.primed = false → c.now = 0

/-- From one cursor to a later one. -/
structure Onward (c c' : LineCursor) : Prop where
  now : c.now ≤ c'.now
  placed : c'.Placed

theorem Placed.onward (h : c.Placed) : c.Onward c :=
  ⟨Nat.le_refl _, h⟩

theorem onward_prime (h : c.Placed) (s : σ) : c.Onward (prime c s).2.1 := by
  unfold prime
  split
  · exact h.onward
  · rename_i hprimed
    split
    · refine ⟨?_, nofun⟩
      rw [h (Bool.eq_false_iff.2 hprimed)]
      exact Nat.zero_le _
    · exact h.onward

/-- The position stays behind the deadline of a wait, so going there is never going back. -/
theorem now_le_seek {edge : Edge} {deadline : Option Nat} {s : σ}
    (h : ∀ late, deadline = some late → c.now ≤ late) :
    c.now ≤ (seek edge deadline c s).2.1.now := by
  fun_induction seek edge deadline c s with
  | case1 => exact Nat.le_refl _
  | case2 c s next s' hp late hd => exact h late (Option.eq_some_of_filter_eq_some hd)
  | case3 => exact Nat.le_refl _
  | case4 c s next s' hp hd x s'' hr hlt hlevel ih => exact ih h
  | case5 c s next s' hp hd x s'' hr hlt hlevel c' hm => exact Nat.le_max_right _ _
  | case6 c s next s' hp hd x s'' hr hlt hlevel c' hm ih =>
    refine Nat.le_trans (Nat.le_max_right next.time c.now) (ih ?_)
    rintro late rfl
    refine Nat.max_le.2 ⟨?_, h late rfl⟩
    simpa [Option.filter_some] using hd

theorem now_le_advance {target : Nat} {s : σ} (h : c.now ≤ target) :
    c.now ≤ (advance target c s).2.1.now := by
  fun_induction advance target c s with
  | case1 => exact Nat.le_refl _
  | case2 => exact h
  | case3 => exact h
  | case4 => exact h
  | case5 => exact Nat.le_refl _
  | case6 c s next s' hp hlt heq x s'' hr hsize ih => exact ih h

theorem onward_waitEdge (h : c.Placed) (edge : Edge) (budget : Option Nat) (s : σ) :
    c.Onward (waitEdge edge budget c s).2.1 := by
  have honward := onward_prime h s
  unfold waitEdge
  rcases hprime : prime c s with ⟨e | _, c', s'⟩
  · rwa [hprime] at honward
  · rw [hprime] at honward
    refine ⟨Nat.le_trans honward.now (now_le_seek ?_), fun hfalse => ?_⟩
    · intro late hlate
      obtain ⟨n, -, rfl⟩ := Option.map_eq_some_iff.1 hlate
      exact Nat.le_add_right _ _
    · rw [primed_seek, primed_of_prime hprime] at hfalse
      cases hfalse

theorem onward_skip (h : c.Placed) (count : Nat) (s : σ) :
    c.Onward (skip count c s).2.1 := by
  have honward := onward_prime h s
  unfold skip
  rcases hprime : prime c s with ⟨e | _, c', s'⟩
  · rwa [hprime] at honward
  · rw [hprime] at honward
    refine ⟨Nat.le_trans honward.now (now_le_advance (Nat.le_add_right _ _)), fun hfalse => ?_⟩
    rw [primed_advance, primed_of_prime hprime] at hfalse
    cases hfalse

theorem now_advance {target : Nat} {s : σ} {b : Bool} (h : (advance target c s).1 = .ok b) :
    (advance target c s).2.1.now = target := by
  fun_induction advance target c s with
  | case1 => cases h
  | case2 => rfl
  | case3 => rfl
  | case4 => rfl
  | case5 => cases h
  | case6 c s next s' hp hlt heq x s'' hr hsize ih => exact ih h

/-- A skip that is answered has gone at least its number of samples. -/
theorem le_now_skip (hc : c.Placed) {count : Nat} {s : σ} {b : Bool}
    (h : (skip count c s).1 = .ok b) : c.now + count ≤ (skip count c s).2.1.now := by
  have honward := onward_prime hc s
  unfold skip at h ⊢
  rcases hprime : prime c s with ⟨e | _, c', s'⟩
  · rw [hprime] at h
    cases h
  · rw [hprime] at h honward
    dsimp only at h ⊢
    rw [now_advance h]
    exact Nat.add_le_add_right honward.now count

end Onward

end LineCursor

end BusDecode
