import BusDecode.Proofs.Matching

/-!
# Runs that look the same

Two runs are alike if they answer alike, hand on the same items in order and end in related states;
what they report of themselves may differ.  They match with the same items, then, and what they leave
is related in one way however they end (`Trace.alike_iff`).  Scripts are alike if their runs from
related states are.  As with the other ways to speak about scripts there is one lemma for each
building block, so two scripts are compared line by line.
-/

set_option autoImplicit false

namespace BusDecode

variable {δ γ β ε ε' α α' : Type} {r : δ → γ → Prop}

/-- The runs answer alike, hand on the same items, and end in `r`-related states. -/
structure Trace.Alike (r : δ → γ → Prop) (t : Trace δ β ε α) (t' : Trace γ β ε α) : Prop where
  result : t.result = t'.result
  state : r t.state t'.state
  items : t.items = t'.items

/-- From `r`-related states the runs of the two scripts are alike. -/
def Script.Alike (r : δ → γ → Prop) (m : Script δ β ε α) (m' : Script γ β ε α) : Prop :=
  ∀ s t, r s t → (m.run s).Alike r (m'.run t)

theorem Trace.alike_iff {t : Trace δ β ε α} {t' : Trace γ β ε α} :
    t.Alike r t' ↔ t.Matches Eq r (fun _ => r) t' := by
  constructor
  · rintro ⟨hresult, hstate, hitems⟩
    refine ⟨hresult, fun _ _ => hstate, fun _ _ => hstate, ?_⟩
    rwa [List.forall₂_eq_eq_eq]
  · exact fun h => ⟨h.result, h.ended, h.items_eq⟩

theorem Script.alike_iff {m : Script δ β ε α} {m' : Script γ β ε α} :
    Script.Alike r m m' ↔ Script.Matches Eq r r (fun _ => r) m m' :=
  forall₃_congr fun _ _ _ => Trace.alike_iff

namespace Trace.Alike

variable {m : Script δ β ε α} {m' : Script γ β ε α} {s : δ} {t : γ}

/-- What comes before two runs alike, if it hands on the same items. -/
theorem after {before : List (Effect δ β)} {before' : List (Effect γ β)} {t : Trace δ β ε α}
    {t' : Trace γ β ε α} (h : t.Alike r t')
    (hbefore : before.filterMap Effect.item? = before'.filterMap Effect.item?) :
    (t.after before).Alike r (t'.after before') :=
  ⟨h.result, h.state, by rw [items_after, items_after, hbefore, h.items]⟩

/-- What comes before the first of two runs alike, if it hands on nothing. -/
theorem after_left {before : List (Effect δ β)} {t : Trace δ β ε α} {t' : Trace γ β ε α}
    (h : t.Alike r t') (hbefore : before.filterMap Effect.item? = []) :
    (t.after before).Alike r t' :=
  ⟨h.result, h.state, by rw [items_after, hbefore, List.nil_append, h.items]⟩

/-- Going on after two runs alike.  What they leave may be related in a way of its own (`r₀`),
unless they fail. -/
theorem bind_via {r₀ : δ → γ → Prop} {f : α → Script δ β ε α'} {f' : α → Script γ β ε α'}
    (h : (m.run s).Alike r₀ (m'.run t))
    (herror : ∀ e, (m.run s).result = .error e → r (m.run s).state (m'.run t).state)
    (hf : ∀ a, (m.run s).result = .ok a → r₀ (m.run s).state (m'.run t).state →
      ((f a).run (m.run s).state).Alike r ((f' a).run (m'.run t).state)) :
    ((m >>= f).run s).Alike r ((m' >>= f').run t) := by
  rw [Script.run_bind, Script.run_bind]
  obtain ⟨hresult, hstate, hitems⟩ := h
  rcases hm : m.run s with ⟨_ | a, s', effects⟩ <;> rcases hm' : m'.run t with ⟨_ | b, t', effects'⟩
    <;> rw [hm, hm'] at hresult hstate hitems hf herror <;> cases hresult
  · exact ⟨rfl, herror _ rfl, hitems⟩
  · exact (hf a rfl hstate).after hitems

theorem bind {f : α → Script δ β ε α'} {f' : α → Script γ β ε α'}
    (h : (m.run s).Alike r (m'.run t))
    (hf : ∀ a, (m.run s).result = .ok a → r (m.run s).state (m'.run t).state →
      ((f a).run (m.run s).state).Alike r ((f' a).run (m'.run t).state)) :
    ((m >>= f).run s).Alike r ((m' >>= f').run t) :=
  h.bind_via (fun _ _ => h.state) hf

/-- What a run alike an answered one answers. -/
theorem answers {Q : α → δ → List β → Prop} (h : (m.run s).Alike r (m'.run t))
    (hm : Script.Answers m s Q) :
    Script.Answers m s fun a s' xs =>
      Script.Answers m' t fun b t' ys => b = a ∧ r s' t' ∧ ys = xs := by
  obtain ⟨hresult, hstate, hitems⟩ := h
  unfold Script.Answers Script.Ends at hm ⊢
  generalize m.run s = ran at hresult hstate hitems hm ⊢
  generalize m'.run t = ran' at hresult hstate hitems ⊢
  obtain ⟨_ | a, s', effects⟩ := ran
  · exact hm.elim
  · obtain ⟨_ | b, t', effects'⟩ := ran'
    · cases hresult
    · exact ⟨(Except.ok.inj hresult).symm, hstate, hitems.symm⟩

end Trace.Alike

namespace Script.Alike

variable {m : Script δ β ε α} {m' : Script γ β ε α}

theorem answer (a : α) : Alike r (pure a : Script δ β ε α) (pure a) :=
  fun _ _ h => ⟨rfl, h, rfl⟩

theorem fail (e : ε) : Alike r (Script.fail e : Script δ β ε α) (Script.fail e) :=
  fun _ _ h => ⟨rfl, h, rfl⟩

theorem read {f : δ → α} {g : γ → α} (h : ∀ s t, r s t → f s = g t) :
    Alike r (Script.read f : Script δ β ε α) (Script.read g) :=
  fun s t hr => ⟨congrArg Except.ok (h s t hr), hr, rfl⟩

theorem modify {f : δ → δ} {g : γ → γ} (h : ∀ s t, r s t → r (f s) (g t)) :
    Alike r (Script.modify f : Script δ β ε Unit) (Script.modify g) :=
  fun s t hr => ⟨rfl, h s t hr, rfl⟩

theorem note (f : δ → Event) (g : γ → Event) :
    Alike r (Script.note f : Script δ β ε Unit) (Script.note g) :=
  fun _ _ hr => ⟨rfl, hr, rfl⟩

theorem emit {f : δ → β} {g : γ → β} (h : ∀ s t, r s t → f s = g t) :
    Alike r (Script.emit f : Script δ β ε Unit) (Script.emit g) :=
  fun s t hr => ⟨rfl, hr, congrArg (fun b => [b]) (h s t hr)⟩

theorem lift {step : δ → Except ε α × δ × List Event} {step' : γ → Except ε α × γ × List Event}
    (h : ∀ s t, r s t → (step s).1 = (step' t).1 ∧ r (step s).2.1 (step' t).2.1) :
    Alike r (Script.lift step : Script δ β ε α) (Script.lift step') := by
  refine fun s t hr => ⟨(h s t hr).1, (h s t hr).2, ?_⟩
  exact (Trace.filterMap_noted _).trans (Trace.filterMap_noted _).symm

theorem bind {f : α → Script δ β ε α'} {f' : α → Script γ β ε α'} (hm : Alike r m m')
    (hf : ∀ a, Alike r (f a) (f' a)) : Alike r (m >>= f) (m' >>= f') :=
  fun s t hr => (hm s t hr).bind fun a _ hr' => hf a _ _ hr'

theorem mapError (hm : Alike r m m') (f : ε → ε') : Alike r (m.mapError f) (m'.mapError f) :=
  fun s t hr => ⟨congrArg (Except.mapError f) (hm s t hr).result, (hm s t hr).state,
    (hm s t hr).items⟩

theorem ite {c : Prop} [Decidable c] {n : Script δ β ε α} {n' : Script γ β ε α}
    (hm : Alike r m m') (hn : Alike r n n') :
    Alike r (if c then m else n) (if c then m' else n') := by
  split
  · exact hm
  · exact hn

theorem withhold {m : Script δ β ε Bool} {m' : Script γ β ε Bool} (hm : Alike r m m') :
    Alike r m.withhold m'.withhold :=
  alike_iff.2 (alike_iff.1 hm).withhold

/-- Loops of scripts alike go round equally often. -/
theorem loop {m : Script δ β ε (Option α)} {m' : Script γ β ε (Option α)} (hm : Alike r m m')
    {size : δ → Nat} {size' : γ → Nat} (h : Descends size m) (h' : Descends size' m') :
    Alike r (Script.loop m size h) (Script.loop m' size' h') :=
  alike_iff.2 ((alike_iff.1 hm).loop h h')

end Script.Alike

/-- Loops of scripts alike are alike once their first rounds are. -/
theorem Trace.Alike.loop {m : Script δ β ε (Option α)} {m' : Script γ β ε (Option α)} {s : δ}
    {t : γ} (h : (m.run s).Alike r (m'.run t)) (hm : Script.Alike r m m') {size : δ → Nat}
    {size' : γ → Nat} (hd : Script.Descends size m) (hd' : Script.Descends size' m') :
    ((Script.loop m size hd).run s).Alike r ((Script.loop m' size' hd').run t) := by
  rw [Script.loop_eq m, Script.loop_eq m']
  refine h.bind fun a _ hr => ?_
  cases a with
  | some a => exact Script.Alike.answer a _ _ hr
  | none => exact Script.Alike.loop hm hd hd' _ _ hr

end BusDecode
