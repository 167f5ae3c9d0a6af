import BusDecode.Script.Basic

/-!
# Loops of scripts

`loop` repeats a script until it answers, `times` repeats one a number of times.  Both collect
effects as they go, so a long run needs no deep stack; `loop_eq` and `times_succ` are the
equations to reason with.  A loop ends because a measure of the state falls on every repetition,
which the calculus at the end (`Keeps`, `Consumes`) shows for a script piece by piece.
-/

set_option autoImplicit false

namespace BusDecode

namespace Script

variable {δ γ β ε ε' α α' : Type}

/-! ## Repeating until there is an answer -/

/-- A script that has no answer yet leaves less to do. -/
def Descends (size : δ → Nat) (m : Script δ β ε (Option α)) : Prop :=
  ∀ s, (m.run s).result = .ok none → size (m.run s).state < size s

/-- Repeats `m` from `s` on, after the effects in `done` (latest first). -/
def loopFrom (m : Script δ β ε (Option α)) (size : δ → Nat) (h : Descends size m) (s : δ)
    (done : List (Effect δ β)) : Trace δ β ε α :=
  match hm : m.run s with
  | ⟨.ok none, s', effects⟩ =>
    have : size s' < size s := by
      have := h s (by rw [hm])
      rwa [hm] at this
    loopFrom m size h s' (effects.reverseAux done)
  | ⟨.ok (some a), s', effects⟩ => ⟨.ok a, s', (effects.reverseAux done).reverse⟩
  | ⟨.error e, s', effects⟩ => ⟨.error e, s', (effects.reverseAux done).reverse⟩
termination_by size s

/-- Repeats a script until it answers. -/
def loop (m : Script δ β ε (Option α)) (size : δ → Nat) (h : Descends size m) :
    Script δ β ε α :=
  ⟨fun s => loopFrom m size h s []⟩

theorem loopFrom_eq (m : Script δ β ε (Option α)) (size : δ → Nat) (h : Descends size m) (s : δ)
    (done : List (Effect δ β)) :
    loopFrom m size h s done = (loopFrom m size h s []).after done.reverse := by
  induction hn : size s using Nat.strongRecOn generalizing s done with
  | ind n ih =>
    subst hn
    rw [loopFrom, loopFrom.eq_def m size h s []]
    split
    · rename_i s' effects hm
      have hlt : size s' < size s := by
        have := h s (by rw [hm])
        rwa [hm] at this
      rw [ih _ hlt s' _ rfl, ih _ hlt s' (effects.reverseAux []) rfl]
      simp [Trace.after]
    · simp [Trace.after]
    · simp [Trace.after]

/-- One repetition of a loop. -/
theorem loop_eq (m : Script δ β ε (Option α)) (size : δ → Nat) (h : Descends size m) :
    loop m size h = m >>= fun
      | some a => pure a
      | none => loop m size h := by
  ext1
  funext s
  change loopFrom m size h s [] = _
  rw [run_bind, loopFrom]
  split
  · rename_i s' effects hm
    rw [loopFrom_eq]
    simp [hm, loop, Trace.after]
  · rename_i a s' effects hm
    simp [hm, Trace.after]
  · rename_i e s' effects hm
    simp [hm]

/-! ## Repeating a number of times -/

/-- Repeats `m` from `s` on, after the effects in `done` (latest first). -/
def timesFrom (m : Script δ β ε Unit) : Nat → δ → List (Effect δ β) → Trace δ β ε Unit
  | 0, s, done => ⟨.ok (), s, done.reverse⟩
  | n + 1, s, done =>
    match m.run s with
    | ⟨.ok (), s', effects⟩ => timesFrom m n s' (effects.reverseAux done)
    | ⟨.error e, s', effects⟩ => ⟨.error e, s', (effects.reverseAux done).reverse⟩

/-- Runs a script `n` times over. -/
def times (n : Nat) (m : Script δ β ε Unit) : Script δ β ε Unit :=
  ⟨fun s => timesFrom m n s []⟩

theorem timesFrom_eq (m : Script δ β ε Unit) (n : Nat) (s : δ) (done : List (Effect δ β)) :
    timesFrom m n s done = (timesFrom m n s []).after done.reverse := by
  induction n generalizing s done with
  | zero => simp [timesFrom, Trace.after]
  | succ n ih =>
    rw [timesFrom, timesFrom.eq_def m (n + 1) s []]
    dsimp only
    split
    · rename_i s' effects hm
      rw [ih, ih s' (effects.reverseAux [])]
      simp [Trace.after]
    · simp [Trace.after]

@[simp] theorem times_zero (m : Script δ β ε Unit) : times 0 m = pure () := by
  ext1
  funext s
  simp [times, timesFrom]

theorem times_succ (n : Nat) (m : Script δ β ε Unit) :
    times (n + 1) m = m >>= fun _ => times n m := by
  ext1
  funext s
  change timesFrom m (n + 1) s [] = _
  rw [run_bind, timesFrom.eq_def]
  dsimp only
  split
  · rename_i s' effects hm
    rw [timesFrom_eq]
    simp [hm, times, Trace.after]
  · rename_i e s' effects hm
    simp [hm]

/-! ## What a script leaves behind -/

/-- The state a script ends in is `r`-related to the one it began in, however it ends. -/
def Keeps (r : δ → δ → Prop) (m : Script δ β ε α) : Prop :=
  ∀ s, r s (m.run s).state

/-- A script that answers leaves less to do. -/
def Consumes (size : δ → Nat) (m : Script δ β ε α) : Prop :=
  ∀ s a, (m.run s).result = .ok a → size (m.run s).state < size s

/-- Nothing is added to what is left to do. -/
def NoMore (size : δ → Nat) (s s' : δ) : Prop :=
  size s' ≤ size s

instance (size : δ → Nat) : Std.Refl (NoMore size) :=
  ⟨fun _ => Nat.le_refl _⟩

instance (size : δ → Nat) : Trans (NoMore size) (NoMore size) (NoMore size) :=
  ⟨fun h h' => Nat.le_trans h' h⟩

namespace Keeps

variable {r : δ → δ → Prop} [Std.Refl r]

theorem answer (a : α) : Keeps r (pure a : Script δ β ε α) :=
  Std.Refl.refl

theorem fail (e : ε) : Keeps r (Script.fail e : Script δ β ε α) :=
  Std.Refl.refl

theorem read (f : δ → α) : Keeps r (Script.read f : Script δ β ε α) :=
  Std.Refl.refl

theorem note (f : δ → Event) : Keeps r (Script.note f : Script δ β ε Unit) :=
  Std.Refl.refl

theorem emit (f : δ → β) : Keeps r (Script.emit f : Script δ β ε Unit) :=
  Std.Refl.refl

omit [Std.Refl r] in
theorem modify {f : δ → δ} (hf : ∀ s, r s (f s)) : Keeps r (Script.modify f : Script δ β ε Unit) :=
  hf

omit [Std.Refl r] in
theorem lift {step : δ → Except ε α × δ × List Event} (h : ∀ s, r s (step s).2.1) :
    Keeps r (Script.lift step : Script δ β ε α) :=
  h

omit [Std.Refl r] in
theorem mapError {m : Script δ β ε α} (hm : Keeps r m) (f : ε → ε') :
    Keeps r (m.mapError f) :=
  hm

omit [Std.Refl r] in
theorem attempt {m : Script δ β ε α} (hm : Keeps r m) :
    Keeps r (m.attempt : Script δ β ε' (Except ε α)) :=
  hm

omit [Std.Refl r] in
theorem withhold {m : Script δ β ε Bool} (hm : Keeps r m) : Keeps r m.withhold := by
  intro s
  have h := hm s
  unfold Script.withhold
  dsimp only
  split <;> exact h

omit [Std.Refl r] in
theorem ite {c : Prop} [Decidable c] {m m' : Script δ β ε α} (hm : Keeps r m)
    (hm' : Keeps r m') : Keeps r (if c then m else m') := by
  split
  · exact hm
  · exact hm'

variable [Trans r r r]

omit [Std.Refl r] in
theorem bind {m : Script δ β ε α} {f : α → Script δ β ε α'} (hm : Keeps r m)
    (hf : ∀ a, Keeps r (f a)) : Keeps r (m >>= f) := by
  intro s
  have h := hm s
  rw [run_bind]
  split
  · rename_i a s' effects hms
    rw [hms] at h
    exact Trans.trans h (hf a s')
  · rename_i e s' effects hms
    rwa [hms] at h

theorem times {m : Script δ β ε Unit} (hm : Keeps r m) (n : Nat) :
    Keeps r (Script.times n m) := by
  induction n with
  | zero => rw [times_zero]; exact answer ()
  | succ n ih => rw [times_succ]; exact bind hm fun _ => ih

omit [Std.Refl r] in
theorem loop {m : Script δ β ε (Option α)} (hm : Keeps r m) (size : δ → Nat)
    (h : Descends size m) : Keeps r (Script.loop m size h) := by
  intro s
  induction hn : size s using Nat.strongRecOn generalizing s with
  | ind n ih =>
    subst hn
    have hs := hm s
    rw [loop_eq, run_bind]
    split
    · rename_i a s' effects hms
      rw [hms] at hs
      cases a with
      | some a => exact hs
      | none =>
        have hlt := h s (by rw [hms])
        rw [hms] at hlt
        exact Trans.trans hs (ih _ hlt s' rfl)
    · rename_i e s' effects hms
      rwa [hms] at hs

end Keeps

namespace Consumes

variable {size : δ → Nat}

/-- What is consumed first stays consumed. -/
theorem bind_left {m : Script δ β ε α} {f : α → Script δ β ε α'} (hm : Consumes size m)
    (hf : ∀ a, Keeps (NoMore size) (f a)) : Consumes size (m >>= f) := by
  intro s a' h
  rw [run_bind] at h ⊢
  split at h
  · rename_i a s' effects hms
    have hlt := hm s a (by rw [hms])
    rw [hms] at hlt
    exact Nat.lt_of_le_of_lt (hf a s') hlt
  · simp at h

/-- A loop whose body consumes whatever it answers consumes too. -/
theorem loop {m : Script δ β ε (Option α)} (hm : Consumes size m) (h : Descends size m) :
    Consumes size (Script.loop m size h) := by
  intro s
  induction hn : size s using Nat.strongRecOn generalizing s with
  | ind n ih =>
    subst hn
    intro a ha
    rw [loop_eq, run_bind] at ha ⊢
    split at ha
    · rename_i b s' effects hms
      have hlt := hm s b (by rw [hms])
      rw [hms] at hlt
      cases b with
      | some b => exact hlt
      | none => exact Nat.lt_trans (ih _ hlt s' rfl a ha) hlt
    · simp at ha

end Consumes

end Script

end BusDecode
