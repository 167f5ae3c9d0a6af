import BusDecode.Proofs.Telling

/-!
# Accounts of a run

What a run leaves is how it ends, its last state, the items it handed on and the events it reported
(`Leaves`).  That is what counters can be held against: a script `Links` states by a relation if its
items and events relate the state it ends in to the one it began in, however it ends.  There is one
lemma for each building block; where a counter is raised apart from what it counts, the part between
is followed by the rules for `Leaves`, which know the answer.
-/

set_option autoImplicit false

namespace BusDecode

namespace Trace

variable {δ γ β ε α : Type}

@[simp] theorem events_mk (r : Except ε α) (s : δ) (effects : List (Effect δ β)) :
    (⟨r, s, effects⟩ : Trace δ β ε α).events = effects.filterMap Effect.event? := rfl

@[simp] theorem events_after (before : List (Effect δ β)) (t : Trace δ β ε α) :
    (t.after before).events = before.filterMap Effect.event? ++ t.events := by
  simp [events, after]

theorem filterMap_event?_noted (events : List Event) :
    (events.map (Effect.note : Event → Effect δ β)).filterMap Effect.event? = events := by
  rw [List.filterMap_map]
  exact List.filterMap_some

theorem filterMap_event?_emitted (xs : List β) (s : δ) :
    (xs.map fun item => Effect.emit item s).filterMap Effect.event? = [] := by
  rw [List.filterMap_map, List.filterMap_eq_nil_iff]
  exact fun _ _ => rfl

theorem filterMap_event?_notes (effects : List (Effect δ β)) :
    (effects.filter Effect.isNote).filterMap Effect.event? = effects.filterMap Effect.event? := by
  induction effects with
  | nil => rfl
  | cons e rest ih => cases e <;> simp [List.filter_cons, Effect.isNote, List.filterMap_cons, ih]

@[simp] theorem events_mapState (f : δ → γ) (t : Trace δ β ε α) :
    (t.mapState f).events = t.events := by
  have hevent : Effect.event? ∘ Effect.mapState f = (Effect.event? : Effect δ β → _) := by
    funext e
    cases e <;> rfl
  rw [mapState, events, List.filterMap_map, hevent]
  rfl

end Trace

namespace Script

variable {δ γ β ε ε' α α' : Type}

/-! ## What a run leaves -/

/-- How the run from `s` ends, the state it leaves, its items and its events satisfy `Q`. -/
def Leaves (m : Script δ β ε α) (s : δ)
    (Q : Except ε α → δ → List β → List Event → Prop) : Prop :=
  Q (m.run s).result (m.run s).state (m.run s).items (m.run s).events

namespace Leaves

variable {m : Script δ β ε α} {s : δ} {Q : Except ε α → δ → List β → List Event → Prop}

theorem mono {Q' : Except ε α → δ → List β → List Event → Prop} (h : Leaves m s Q)
    (hQ : ∀ r t xs es, Q r t xs es → Q' r t xs es) : Leaves m s Q' :=
  hQ _ _ _ _ h

/-- Going on with the answer, if there is one. -/
theorem bind {f : α → Script δ β ε α'} {Q : Except ε α' → δ → List β → List Event → Prop}
    (h : Leaves m s fun r t xs es =>
      (∀ a, r = .ok a → Leaves (f a) t fun r' u ys fs => Q r' u (xs ++ ys) (es ++ fs)) ∧
        ∀ e, r = .error e → Q (.error e) t xs es) : Leaves (m >>= f) s Q := by
  unfold Leaves at h ⊢
  rcases hrun : m.run s with ⟨e | a, t, effects⟩
  · rw [hrun] at h
    rw [run_bind_error hrun]
    exact h.2 e rfl
  · rw [hrun] at h
    rw [run_bind_ok hrun, Trace.items_after, Trace.events_after]
    exact h.1 a rfl

/-- Looking at the state leaves nothing. -/
theorem read_bind {f : δ → α} {k : α → Script δ β ε α'}
    {Q : Except ε α' → δ → List β → List Event → Prop} (h : Leaves (k (f s)) s Q) :
    Leaves (Script.read f >>= k) s Q :=
  h

theorem modify_bind {f : δ → δ} {k : Unit → Script δ β ε α'}
    {Q : Except ε α' → δ → List β → List Event → Prop} (h : Leaves (k ()) (f s) Q) :
    Leaves (Script.modify f >>= k) s Q :=
  h

theorem ite {c : Prop} [Decidable c] {m' : Script δ β ε α} (h : c → Leaves m s Q)
    (h' : ¬c → Leaves m' s Q) : Leaves (if c then m else m') s Q := by
  split
  · exact h ‹_›
  · exact h' ‹_›

theorem mapError {f : ε → ε'} {Q : Except ε' α → δ → List β → List Event → Prop}
    (h : Leaves m s fun r => Q (r.mapError f)) : Leaves (m.mapError f) s Q :=
  h

/-- Without `true` for an answer the items are dropped; the events stay. -/
theorem withhold {m : Script δ β ε Bool} {Q : Except ε Bool → δ → List β → List Event → Prop}
    (h : Leaves m s fun r t xs es =>
      (r = .ok true → Q r t xs es) ∧ (r ≠ .ok true → Q r t [] es)) : Leaves m.withhold s Q := by
  unfold Leaves at h ⊢
  unfold Script.withhold
  dsimp only
  generalize m.run s = ran at h ⊢
  rcases ran with ⟨r, t, effects⟩
  dsimp only
  split
  · have hevents : (effects.filter Effect.isNote ++
        (effects.filterMap Effect.item?).map fun item => Effect.emit item t).filterMap
          Effect.event? = effects.filterMap Effect.event? := by
      rw [List.filterMap_append, Trace.filterMap_event?_notes, Trace.filterMap_event?_emitted,
        List.append_nil]
    dsimp only [Trace.items, Trace.events]
    rw [List.filterMap_append, Trace.filterMap_notes, Trace.filterMap_emitted, hevents]
    exact h.1 rfl
  · rename_i hresult
    dsimp only [Trace.items, Trace.events]
    rw [Trace.filterMap_notes, Trace.filterMap_event?_notes]
    exact h.2 hresult

end Leaves

/-! ## What scripts link -/

/-- Relations between two states, through what is handed on and reported between them, that can be
composed. -/
class Linked {δ β : Type} (R : δ → List β → List Event → δ → Prop) : Prop where
  refl : ∀ s, R s [] [] s
  trans : ∀ {s t u xs ys es fs}, R s xs es t → R t ys fs u → R s (xs ++ ys) (es ++ fs) u

/-- However the script ends, its items and events relate the state it leaves to the first one. -/
def Links (R : δ → List β → List Event → δ → Prop) (m : Script δ β ε α) : Prop :=
  ∀ s, R s (m.run s).items (m.run s).events (m.run s).state

namespace Links

variable {R : δ → List β → List Event → δ → Prop} {m : Script δ β ε α}

theorem leaves (h : Links R m) (s : δ) : Leaves m s fun _ t xs es => R s xs es t :=
  h s

theorem of_leaves (h : ∀ s, Leaves m s fun _ t xs es => R s xs es t) : Links R m :=
  h

theorem imp {R' : δ → List β → List Event → δ → Prop} (h : Links R m)
    (hR : ∀ s xs es t, R s xs es t → R' s xs es t) : Links R' m :=
  fun s => hR _ _ _ _ (h s)

theorem modify {f : δ → δ} (h : ∀ s, R s [] [] (f s)) :
    Links R (Script.modify f : Script δ β ε Unit) :=
  h

theorem note {f : δ → Event} (h : ∀ s, R s [] [f s] s) :
    Links R (Script.note f : Script δ β ε Unit) :=
  h

theorem emit {f : δ → β} (h : ∀ s, R s [f s] [] s) :
    Links R (Script.emit f : Script δ β ε Unit) :=
  h

theorem lift {step : δ → Except ε α × δ × List Event}
    (h : ∀ s, R s [] (step s).2.2 (step s).2.1) :
    Links R (Script.lift step : Script δ β ε α) := by
  intro s
  rw [run_lift, Trace.items_mk, Trace.events_mk, Trace.filterMap_noted,
    Trace.filterMap_event?_noted]
  exact h s

theorem ite {c : Prop} [Decidable c] {m' : Script δ β ε α} (h : Links R m)
    (h' : Links R m') : Links R (if c then m else m') := by
  split
  · exact h
  · exact h'

theorem mapError (h : Links R m) (f : ε → ε') : Links R (m.mapError f) :=
  h

theorem attempt (h : Links R m) : Links R (m.attempt : Script δ β ε' (Except ε α)) :=
  h

variable [Linked R]

theorem answer (a : α) : Links R (pure a : Script δ β ε α) :=
  fun s => Linked.refl s

theorem fail (e : ε) : Links R (Script.fail e : Script δ β ε α) :=
  fun s => Linked.refl s

theorem read (f : δ → α) : Links R (Script.read f : Script δ β ε α) :=
  fun s => Linked.refl s

theorem bind {f : α → Script δ β ε α'} (hm : Links R m) (hf : ∀ a, Links R (f a)) :
    Links R (m >>= f) := by
  refine of_leaves fun s => .bind ((hm.leaves s).mono fun r t xs es h => ⟨fun a _ => ?_, ?_⟩)
  · exact ((hf a).leaves t).mono fun _ _ _ _ h' => Linked.trans h h'
  · exact fun _ _ => h

theorem times {m : Script δ β ε Unit} (h : Links R m) (n : Nat) :
    Links R (Script.times n m) := by
  induction n with
  | zero =>
    rw [times_zero]
    exact answer ()
  | succ n ih =>
    rw [times_succ]
    exact bind h fun _ => ih

theorem loop {m : Script δ β ε (Option α)} (h : Links R m) (size : δ → Nat)
    (hd : Descends size m) : Links R (Script.loop m size hd) := by
  intro s
  induction hn : size s using Nat.strongRecOn generalizing s with
  | ind n ih =>
    subst hn
    have hs := h s
    have hless := hd s
    rw [loop_eq]
    rcases hrun : m.run s with ⟨e | _ | a, t, effects⟩
    · rw [hrun] at hs
      rw [run_bind_error hrun]
      exact hs
    · rw [hrun] at hs hless
      rw [run_bind_ok hrun, Trace.items_after, Trace.events_after]
      exact Linked.trans hs (ih _ (hless rfl) t rfl)
    · rw [hrun] at hs
      rw [run_bind_ok hrun, Trace.items_after, Trace.events_after]
      exact Linked.trans hs (Linked.refl t)

end Links

end Script

end BusDecode
