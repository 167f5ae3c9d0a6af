import BusDecode.Proofs.Limits
import BusDecode.Proofs.Telling

/-!
# What a script upholds

Some things can only be said of all that was handed on so far together with the state reached: that
entries are in order, and that none is later than now.  A script `Upholds` such a `P` from a state,
with the items handed on before, if `P` is true whenever an item is handed on and at the end; an
answer leaves a `Q` besides.  If `P` holds to begin with it need not be mentioned again: each rule
asks only for what its own building block could break.
-/

set_option autoImplicit false

namespace BusDecode

/-- Items that are handed on together, in the last state. -/
theorem Trace.Throughout.flushed {δ β ε α : Type} {P : List β → δ → Prop} {r : Except ε α} {s : δ}
    {effects : List (Effect δ β)} {items : List β} (h : ∀ ys zs, ys ++ zs = items → P ys s) :
    Throughout P (⟨r, s, effects.filter Effect.isNote ++ items.map fun item => .emit item s⟩ :
      Trace δ β ε α) where
  last := by
    rw [items_mk, List.filterMap_append, filterMap_notes, filterMap_emitted]
    exact h items [] (List.append_nil items)
  seen before item state later heffects := by
    rcases List.append_eq_append_iff.1 heffects with ⟨mid, rfl, hmid⟩ | ⟨mid, hnotes, hmid⟩
    · obtain ⟨ys, rest, rfl, rfl, hrest⟩ := List.map_eq_append_iff.1 hmid
      obtain ⟨item', zs, rfl, hitem, -⟩ := List.map_eq_cons_iff.1 hrest
      cases hitem
      rw [List.filterMap_append, filterMap_notes, filterMap_emitted, List.nil_append]
      exact h _ zs (by simp)
    · cases mid with
      | nil =>
        obtain ⟨item', zs, rfl, hitem, -⟩ := List.map_eq_cons_iff.1 hmid.symm
        cases hitem
        rw [List.append_nil] at hnotes
        rw [← hnotes, filterMap_notes]
        exact h _ zs rfl
      | cons e mid =>
        -- a note cannot be the item
        obtain ⟨rfl, -⟩ := List.cons.inj hmid
        have hmem : Effect.emit item state ∈ effects.filter Effect.isNote := by
          rw [hnotes]
          exact List.mem_append_right _ List.mem_cons_self
        exact absurd (List.mem_filter.1 hmem).2 Bool.false_ne_true

/-- What is true all along a run is true of what a sink took of it and the state it was left in. -/
theorem Trace.Throughout.played {δ β α : Type} {P : List β → δ → Prop} {t : Trace δ β Halt α}
    (h : t.Throughout P) (hclosed : ∀ ys zs s, P (ys ++ zs) s → P ys s) (e : Halt)
    (room : Option Nat) :
    let played := t.play (⟨#[], e, room⟩ : Limited (Array β))
    P played.sink.inner.toList played.state := by
  intro played
  rcases play_limited t #[] e room with ⟨left, -, hplayed⟩ |
    ⟨before, item, fallback, after, heffects, -, hplayed⟩
  · rw [show played = _ from hplayed]
    simpa using h.last
  · rw [show played = _ from hplayed]
    simpa using hclosed _ _ _ (h.seen before item fallback after heffects)

namespace Script

variable {δ γ β ε ε' α α' : Type}

/-- If `P` holds of what was handed on before and the state, it does whenever the script hands on an
item, and in the end; then an answer satisfies `Q` with all items and the state it leaves. -/
def Upholds (P : List β → δ → Prop) (m : Script δ β ε α) (xs : List β) (s : δ)
    (Q : α → List β → δ → Prop) : Prop :=
  P xs s → (m.run s).Throughout (fun ys t => P (xs ++ ys) t) ∧
    Ends m s (fun a t ys => Q a (xs ++ ys) t) fun _ _ _ => True

namespace Upholds

variable {P : List β → δ → Prop} {m : Script δ β ε α} {xs : List β} {s : δ}
  {Q : α → List β → δ → Prop} {Q₀ : Unit → List β → δ → Prop}

theorem throughout (h : Upholds P m xs s Q) (hP : P xs s) :
    (m.run s).Throughout fun ys t => P (xs ++ ys) t :=
  (h hP).1

/-- What holds to begin with may be used. -/
theorem assuming (h : P xs s → Upholds P m xs s Q) : Upholds P m xs s Q :=
  fun hP => h hP hP

theorem mono {Q' : α → List β → δ → Prop} (h : Upholds P m xs s Q)
    (hQ : ∀ a ys t, P ys t → Q a ys t → Q' a ys t) : Upholds P m xs s Q' := by
  intro hP
  obtain ⟨halong, hends⟩ := h hP
  refine ⟨halong, ?_⟩
  have hlast := halong.last
  unfold Ends at hends ⊢
  unfold Trace.items at hlast
  generalize m.run s = t at hends hlast ⊢
  rcases t with ⟨_ | a, s', effects⟩
  · exact trivial
  · exact hQ a _ s' hlast hends

/-- Scripts that run alike uphold alike. -/
theorem of_run {m' : Script δ β ε α} (hrun : m.run s = m'.run s) (h : Upholds P m' xs s Q) :
    Upholds P m xs s Q := by
  unfold Upholds Ends at h ⊢
  rwa [hrun]

/-- A script of which all that can be seen is related to where it begins. -/
theorem of_shows {r : δ → δ → Prop} {p : β → Prop} (h : Shows r p m)
    (hP : ∀ ys t, P xs s → r s t → P (xs ++ ys) t) : Upholds P m xs s fun _ _ t => r s t := by
  intro hs
  obtain ⟨hlast, hseen⟩ := h s
  refine ⟨⟨hP _ _ hs hlast, fun before item state later heffects => hP _ _ hs ?_⟩,
    (h.ends s).imp (fun _ _ _ hends => hends.1) fun _ _ _ _ => trivial⟩
  exact (hseen item state (by rw [heffects]; simp)).1

/-! ## Building blocks -/

theorem answer {a : α} (h : Q a xs s) : Upholds P (pure a : Script δ β ε α) xs s Q := by
  intro hP
  rw [← List.append_nil xs] at hP h
  exact ⟨.notes [] hP, .answer h⟩

theorem fail {e : ε} : Upholds P (Script.fail e : Script δ β ε α) xs s Q := by
  intro hP
  rw [← List.append_nil xs] at hP
  exact ⟨.notes [] hP, .fail trivial⟩

theorem read {f : δ → α} (h : Q (f s) xs s) :
    Upholds P (Script.read f : Script δ β ε α) xs s Q := by
  intro hP
  rw [← List.append_nil xs] at hP h
  exact ⟨.notes [] hP, .read h⟩

theorem modify {f : δ → δ} (hP : P xs s → P xs (f s)) (h : Q₀ () xs (f s)) :
    Upholds P (Script.modify f : Script δ β ε Unit) xs s Q₀ := by
  intro hs
  have hP := hP hs
  rw [← List.append_nil xs] at hP h
  exact ⟨.notes [] hP, .modify h⟩

theorem note {f : δ → Event} (h : Q₀ () xs s) :
    Upholds P (Script.note f : Script δ β ε Unit) xs s Q₀ := by
  intro hP
  rw [← List.append_nil xs] at hP h
  exact ⟨.notes [f s] hP, .note h⟩

theorem emit {f : δ → β} (hP : P xs s → P (xs ++ [f s]) s) (h : Q₀ () (xs ++ [f s]) s) :
    Upholds P (Script.emit f : Script δ β ε Unit) xs s Q₀ := by
  intro hs
  have hone : Trace.Throughout (fun ys t => P (xs ++ ys) t)
      (⟨.ok (), s, ([] : List Event).map .note ++ [.emit (f s) s]⟩ : Trace δ β ε Unit) :=
    .one (hP hs)
  exact ⟨hone, .emit h⟩

theorem lift {step : δ → Except ε α × δ × List Event} (hP : P xs s → P xs (step s).2.1)
    (h : ∀ a, (step s).1 = .ok a → Q a xs (step s).2.1) :
    Upholds P (Script.lift step : Script δ β ε α) xs s Q := by
  intro hs
  have hP := hP hs
  rw [← List.append_nil xs] at hP h
  refine ⟨.notes _ hP, ?_⟩
  have hends : Ends (Script.lift step : Script δ β ε α) s (fun _ _ ys => ys = [])
      fun _ _ ys => ys = [] := .lift
  unfold Ends at hends ⊢
  rw [run_lift] at hends ⊢
  rcases hstep : step s with ⟨_ | a, s', events⟩
  · exact trivial
  · rw [hstep] at h hends
    dsimp only at hends ⊢
    rw [hends]
    exact h a rfl

/-! ## Putting them together -/

theorem bind {f : α → Script δ β ε α'} {Q : α' → List β → δ → Prop}
    (h : Upholds P m xs s fun a ys t => Upholds P (f a) ys t Q) :
    Upholds P (m >>= f) xs s Q := by
  intro hP
  obtain ⟨halong, hends⟩ := h hP
  unfold Ends at hends
  rcases hrun : m.run s with ⟨e | a, s', effects⟩
  · rw [hrun] at halong
    refine ⟨?_, ?_⟩
    · rw [run_bind_error hrun]
      exact ⟨halong.last, halong.seen⟩
    · unfold Ends
      rw [run_bind_error hrun]
      exact trivial
  · rw [hrun] at halong hends
    obtain ⟨halong', hends'⟩ := hends halong.last
    refine ⟨?_, .bind ?_⟩
    · rw [run_bind_ok hrun]
      refine halong.after (halong'.mono fun ys t hys => ?_)
      rwa [List.append_assoc] at hys
    · rw [Ends, hrun]
      refine hends'.mono fun a' t ys hys => ?_
      rwa [List.append_assoc] at hys

theorem ite {c : Prop} [Decidable c] {m' : Script δ β ε α} (h : c → Upholds P m xs s Q)
    (h' : ¬c → Upholds P m' xs s Q) : Upholds P (if c then m else m') xs s Q := by
  split
  · exact h ‹_›
  · exact h' ‹_›

theorem mapError {f : ε → ε'} (h : Upholds P m xs s Q) : Upholds P (m.mapError f) xs s Q := by
  intro hP
  obtain ⟨halong, hends⟩ := h hP
  exact ⟨⟨halong.last, halong.seen⟩, .mapError hends⟩

/-- A script that works on another kind of state, entered and left. -/
theorem focus {enter : δ → γ} {leave : γ → δ} {m : Script γ β ε α}
    (hP : P xs s → P xs (leave (enter s)))
    (h : Upholds (fun ys t => P ys (leave t)) m xs (enter s) fun a ys t => Q a ys (leave t)) :
    Upholds P (m.focus enter leave) xs s Q := by
  intro hs
  obtain ⟨halong, hends⟩ := h (hP hs)
  exact ⟨.mapState halong, .of_mapState rfl hends⟩

/-- After a failure that becomes an answer `P` still holds, and that is all. -/
theorem attempt {Q : Except ε α → List β → δ → Prop} (h : Upholds P m xs s fun _ _ _ => True)
    (hQ : ∀ r ys t, P ys t → Q r ys t) :
    Upholds P (m.attempt : Script δ β ε' (Except ε α)) xs s Q := by
  intro hP
  have halong := h.throughout hP
  exact ⟨⟨halong.last, halong.seen⟩, hQ _ _ _ halong.last⟩

/-- What is held back has not been handed on; it follows as a whole, or not at all. -/
theorem withhold {m : Script δ β ε Bool} {Q : Bool → List β → δ → Prop}
    (hclosed : ∀ ys zs t, P (ys ++ zs) t → P ys t)
    (h : Upholds P m xs s fun b ys t => Q b (if b then ys else xs) t) :
    Upholds P m.withhold xs s Q := by
  intro hP
  obtain ⟨halong, hends⟩ := h hP
  have hlast : ∀ ys zs, ys ++ zs = (m.run s).items → P (xs ++ ys) (m.run s).state := by
    intro ys zs hys
    refine hclosed _ zs _ ?_
    rw [List.append_assoc, hys]
    exact halong.last
  refine ⟨?_, .withhold (hends.mono ?_)⟩
  · unfold Script.withhold
    dsimp only
    split
    · exact .flushed hlast
    · have hnone : ∀ ys zs, ys ++ zs = ([] : List β) → P (xs ++ ys) (m.run s).state := by
        intro ys zs hys
        obtain ⟨rfl, -⟩ := List.append_eq_nil_iff.1 hys
        exact hlast [] _ rfl
      have hflushed : Trace.Throughout (fun ys t => P (xs ++ ys) t)
          (⟨(m.run s).result, (m.run s).state, (m.run s).effects.filter Effect.isNote ++
            ([] : List β).map fun item => .emit item (m.run s).state⟩ : Trace δ β ε Bool) :=
        .flushed hnone
      rwa [List.map_nil, List.append_nil] at hflushed
  · rintro (_ | _) t ys hQ
    · simpa using hQ
    · exact hQ

theorem times {m : Script δ β ε Unit} (I : List β → δ → Prop)
    (h : ∀ ys t, I ys t → Upholds P m ys t fun _ => I) (n : Nat) {xs : List β} {s : δ}
    (hI : I xs s) : Upholds P (Script.times n m) xs s fun _ => I := by
  induction n generalizing xs s with
  | zero =>
    rw [times_zero]
    exact answer hI
  | succ n ih =>
    rw [times_succ]
    exact bind ((h xs s hI).mono fun _ ys t _ hI' => ih hI')

/-- Every round of a loop begins with `P`, which is all it needs. -/
theorem loop {m : Script δ β ε (Option α)} {size : δ → Nat} {hd : Descends size m}
    (h : ∀ ys t, Upholds P m ys t fun o zs t' => ∀ a, o = some a → Q a zs t') (xs : List β)
    (s : δ) : Upholds P (Script.loop m size hd) xs s Q := by
  induction hn : size s using Nat.strongRecOn generalizing xs s with
  | ind n ih =>
    subst hn
    have hless : Ends m s (fun o t _ => o = none → size t < size s) fun _ _ _ => True := by
      have hd := hd s
      unfold Ends
      generalize m.run s = t at hd ⊢
      rcases t with ⟨_ | o, s', effects⟩
      · exact trivial
      · rintro rfl
        exact hd rfl
    rw [loop_eq]
    refine bind fun hP => ?_
    obtain ⟨halong, hends⟩ := h xs s hP
    refine ⟨halong, (hends.and hless).imp ?_ fun _ _ _ _ => trivial⟩
    rintro (_ | a) t ys ⟨hQ, hlt⟩
    · exact ih _ (hlt rfl) _ t rfl
    · exact answer (hQ a rfl)

end Upholds

end Script

end BusDecode
