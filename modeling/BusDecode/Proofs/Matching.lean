import Mathlib.Data.List.Forall2
import BusDecode.Proofs.Script

/-!
# Runs that match

Two runs match if they have the same result and hand on items that correspond one by one.  What they
leave is related in one way if they answer and in another, which may depend on the reason, if they
fail.  Scripts match from a relation of states to another if their runs from states related in the
first way match and leave states related in the second.  As with the other ways to speak about
scripts there is one lemma for each building block.
-/

set_option autoImplicit false

namespace BusDecode

variable {δ γ β β' ε ε' α α' : Type} {I : β → β' → Prop} {r r' r'' : δ → γ → Prop}
  {E : ε → δ → γ → Prop}

/-- The runs have the same result, their items are `I`-related one by one, and the states they leave
are `r`-related if they answer and `E`-related if they fail. -/
structure Trace.Matches (I : β → β' → Prop) (r : δ → γ → Prop) (E : ε → δ → γ → Prop)
    (t : Trace δ β ε α) (t' : Trace γ β' ε α) : Prop where
  result : t.result = t'.result
  answered : ∀ a, t.result = .ok a → r t.state t'.state
  failed : ∀ e, t.result = .error e → E e t.state t'.state
  items : List.Forall₂ I t.items t'.items

/-- From `r`-related states the runs of the two scripts match and leave `r'`-related ones. -/
def Script.Matches (I : β → β' → Prop) (r r' : δ → γ → Prop) (E : ε → δ → γ → Prop)
    (m : Script δ β ε α) (m' : Script γ β' ε α) : Prop :=
  ∀ s t, r s t → (m.run s).Matches I r' E (m'.run t)

namespace Trace.Matches

variable {m : Script δ β ε α} {m' : Script γ β' ε α} {s : δ} {t : γ}

/-- Runs that answer at once. -/
theorem answer (a : α) (h : r s t) {effects : List (Effect δ β)} {effects' : List (Effect γ β')}
    (hitems : List.Forall₂ I (effects.filterMap Effect.item?) (effects'.filterMap Effect.item?)) :
    (⟨.ok a, s, effects⟩ : Trace δ β ε α).Matches I r E ⟨.ok a, t, effects'⟩ :=
  ⟨rfl, fun _ _ => h, nofun, hitems⟩

/-- Runs that fail at once. -/
theorem fail (e : ε) (h : E e s t) {effects : List (Effect δ β)} {effects' : List (Effect γ β')}
    (hitems : List.Forall₂ I (effects.filterMap Effect.item?) (effects'.filterMap Effect.item?)) :
    (⟨.error e, s, effects⟩ : Trace δ β ε α).Matches I r E ⟨.error e, t, effects'⟩ :=
  ⟨rfl, nofun, fun _ he => by cases he; exact h, hitems⟩

/-- What is left is related in one way however the runs end, if it is whether or not they answer. -/
theorem ended {t : Trace δ β ε α} {t' : Trace γ β' ε α} (h : t.Matches I r (fun _ => r) t') :
    r t.state t'.state := by
  cases hresult : t.result with
  | ok a => exact h.answered a hresult
  | error e => exact h.failed e hresult

theorem mono {E' : ε → δ → γ → Prop} {t : Trace δ β ε α} {t' : Trace γ β' ε α}
    (h : t.Matches I r E t') (hr : ∀ s s', r s s' → r' s s')
    (hE : ∀ e s s', E e s s' → E' e s s') : t.Matches I r' E' t' :=
  ⟨h.result, fun a ha => hr _ _ (h.answered a ha), fun e he => hE _ _ _ (h.failed e he), h.items⟩

/-- Items that are the same one by one. -/
theorem items_eq {t : Trace δ β ε α} {t' : Trace γ β ε α} (h : t.Matches Eq r E t') :
    t.items = t'.items := by
  have hitems := h.items
  rwa [List.forall₂_eq_eq_eq] at hitems

/-- Items that correspond to those of another run by a function. -/
theorem items_eq_map {f : β → β'} {t : Trace δ β ε α} {t' : Trace γ β' ε α}
    (h : t.Matches (fun a b => b = f a) r E t') : t'.items = t.items.map f := by
  have hitems := List.forall₂_map_left_iff.2 (h.items.imp fun _ _ hab => hab.symm)
  rw [List.forall₂_eq_eq_eq] at hitems
  exact hitems.symm

/-- What comes before two runs that match, if the items of it correspond. -/
theorem after {before : List (Effect δ β)} {before' : List (Effect γ β')} {t : Trace δ β ε α}
    {t' : Trace γ β' ε α} (h : t.Matches I r E t')
    (hbefore : List.Forall₂ I (before.filterMap Effect.item?) (before'.filterMap Effect.item?)) :
    (t.after before).Matches I r E (t'.after before') :=
  ⟨h.result, h.answered, h.failed, by
    rw [items_after, items_after]
    exact List.rel_append hbefore h.items⟩

/-- Two runs that match, seen from other kinds of state. -/
theorem mapState {δ' γ' : Type} {r' : δ' → γ' → Prop} {E' : ε → δ' → γ' → Prop} {f : δ → δ'}
    {g : γ → γ'} {t : Trace δ β ε α} {t' : Trace γ β' ε α} (h : t.Matches I r E t')
    (hr : ∀ s s', r s s' → r' (f s) (g s')) (hE : ∀ e s s', E e s s' → E' e (f s) (g s')) :
    (t.mapState f).Matches I r' E' (t'.mapState g) :=
  ⟨h.result, fun a ha => hr _ _ (h.answered a ha), fun e he => hE _ _ _ (h.failed e he), by
    rw [items_mapState, items_mapState]
    exact h.items⟩

/-- Going on after two runs that match. -/
theorem bind {f : α → Script δ β ε α'} {f' : α → Script γ β' ε α'}
    (h : (m.run s).Matches I r E (m'.run t))
    (hf : ∀ a, (m.run s).result = .ok a → r (m.run s).state (m'.run t).state →
      ((f a).run (m.run s).state).Matches I r' E ((f' a).run (m'.run t).state)) :
    ((m >>= f).run s).Matches I r' E ((m' >>= f').run t) := by
  rw [Script.run_bind, Script.run_bind]
  obtain ⟨hresult, hanswered, hfailed, hitems⟩ := h
  rcases hm : m.run s with ⟨e | a, s', effects⟩ <;> rcases hm' : m'.run t with ⟨_ | b, t', effects'⟩
    <;> rw [hm, hm'] at hresult hanswered hfailed hitems hf <;> cases hresult
  · exact .fail e (hfailed e rfl) hitems
  · exact (hf a rfl (hanswered a rfl)).after hitems

/-- Going on with whatever came of two runs that match. -/
theorem attempt_bind {E' : ε' → δ → γ → Prop} {f : Except ε α → Script δ β ε' α'}
    {f' : Except ε α → Script γ β' ε' α'} (h : (m.run s).Matches I r E (m'.run t))
    (hok : ∀ a, r (m.run s).state (m'.run t).state →
      ((f (.ok a)).run (m.run s).state).Matches I r' E' ((f' (.ok a)).run (m'.run t).state))
    (herror : ∀ e, E e (m.run s).state (m'.run t).state →
      ((f (.error e)).run (m.run s).state).Matches I r' E'
        ((f' (.error e)).run (m'.run t).state)) :
    ((m.attempt >>= f).run s).Matches I r' E' ((m'.attempt >>= f').run t) := by
  have hattempt : ((m.attempt : Script δ β ε' (Except ε α)).run s).Matches I
      (fun s' t' => s' = (m.run s).state ∧ t' = (m'.run t).state) E' (m'.attempt.run t) :=
    ⟨congrArg Except.ok h.result, fun _ _ => ⟨rfl, rfl⟩, nofun, h.items⟩
  refine hattempt.bind fun outcome houtcome _ => ?_
  obtain rfl := Except.ok.inj houtcome
  change ((f (m.run s).result).run (m.run s).state).Matches I r' E'
    ((f' (m.run s).result).run (m'.run t).state)
  cases hresult : (m.run s).result with
  | ok a => exact hok a (h.answered a hresult)
  | error e => exact herror e (h.failed e hresult)

end Trace.Matches

namespace Script.Matches

variable {m : Script δ β ε α} {m' : Script γ β' ε α}

theorem answer (a : α) : Matches I r r E (pure a : Script δ β ε α) (pure a) :=
  fun _ _ h => .answer a h .nil

theorem fail {e : ε} (h : ∀ s t, r s t → E e s t) :
    Matches I r r' E (Script.fail e : Script δ β ε α) (Script.fail e) :=
  fun s t hr => .fail e (h s t hr) .nil

theorem modify {f : δ → δ} {g : γ → γ} (h : ∀ s t, r s t → r' (f s) (g t)) :
    Matches I r r' E (Script.modify f : Script δ β ε Unit) (Script.modify g) :=
  fun s t hr => .answer () (h s t hr) .nil

theorem note (f : δ → Event) (g : γ → Event) :
    Matches I r r E (Script.note f : Script δ β ε Unit) (Script.note g) :=
  fun _ _ hr => .answer () hr .nil

theorem emit {f : δ → β} {g : γ → β'} (h : ∀ s t, r s t → I (f s) (g t)) :
    Matches I r r E (Script.emit f : Script δ β ε Unit) (Script.emit g) :=
  fun s t hr => .answer () hr (.cons (h s t hr) .nil)

theorem lift {step : δ → Except ε α × δ × List Event} {step' : γ → Except ε α × γ × List Event}
    (h : ∀ s t, r s t → (step s).1 = (step' t).1 ∧
      (∀ a, (step s).1 = .ok a → r' (step s).2.1 (step' t).2.1) ∧
      ∀ e, (step s).1 = .error e → E e (step s).2.1 (step' t).2.1) :
    Matches I r r' E (Script.lift step : Script δ β ε α) (Script.lift step') := by
  refine fun s t hr => ⟨(h s t hr).1, (h s t hr).2.1, (h s t hr).2.2, ?_⟩
  have hnone := Trace.filterMap_noted (δ := δ) (β := β) (step s).2.2
  have hnone' := Trace.filterMap_noted (δ := γ) (β := β') (step' t).2.2
  rw [run_lift, run_lift, Trace.items_mk, Trace.items_mk, hnone, hnone']
  exact .nil

theorem bind {f : α → Script δ β ε α'} {f' : α → Script γ β' ε α'} (hm : Matches I r r' E m m')
    (hf : ∀ a, Matches I r' r'' E (f a) (f' a)) : Matches I r r'' E (m >>= f) (m' >>= f') :=
  fun s t hr => (hm s t hr).bind fun a _ hr' => hf a _ _ hr'

/-- Going on after a change that leaves states related in a way of its own. -/
theorem modify_bind (r' : δ → γ → Prop) {f : δ → δ} {g : γ → γ} {n : Unit → Script δ β ε α}
    {n' : Unit → Script γ β' ε α} (h : ∀ s t, r s t → r' (f s) (g t))
    (hn : Matches I r' r'' E (n ()) (n' ())) :
    Matches I r r'' E (Script.modify f >>= n) (Script.modify g >>= n') :=
  .bind (.modify h) fun _ => hn

/-- What is read need not be the same, as long as the scripts that go on with it match. -/
theorem read_bind {p : α → α → Prop} {f : δ → α} {g : γ → α} {k : α → Script δ β ε α'}
    {k' : α → Script γ β' ε α'} (hread : ∀ s t, r s t → p (f s) (g t))
    (hk : ∀ a b, p a b → Matches I r r' E (k a) (k' b)) :
    Matches I r r' E (Script.read f >>= k) (Script.read g >>= k') :=
  fun s t hr => hk _ _ (hread s t hr) s t hr

theorem mono {r₀ r₀' : δ → γ → Prop} {E' : ε → δ → γ → Prop} (hm : Matches I r r' E m m')
    (hpre : ∀ s t, r₀ s t → r s t) (hpost : ∀ s t, r' s t → r₀' s t)
    (hE : ∀ e s t, E e s t → E' e s t) : Matches I r₀ r₀' E' m m' :=
  fun s t hr => (hm s t (hpre s t hr)).mono hpost hE

theorem mapError {E' : ε' → δ → γ → Prop} {f : ε → ε'} (hm : Matches I r r' E m m')
    (hE : ∀ e s t, E e s t → E' (f e) s t) : Matches I r r' E' (m.mapError f) (m'.mapError f) := by
  intro s t hr
  obtain ⟨hresult, hanswered, hfailed, hitems⟩ := hm s t hr
  refine ⟨congrArg (Except.mapError f) hresult, ?_, ?_, hitems⟩
  · intro a ha
    rw [run_mapError] at ha
    cases hs : (m.run s).result with
    | ok b => exact hanswered b hs
    | error e => simp [hs, Except.mapError] at ha
  · intro e' he
    rw [run_mapError] at he
    cases hs : (m.run s).result with
    | ok b => simp [hs, Except.mapError] at he
    | error e =>
      simp only [hs, Except.mapError, Except.error.injEq] at he
      subst he
      exact hE _ _ _ (hfailed e hs)

theorem ite {c : Prop} [Decidable c] {n : Script δ β ε α} {n' : Script γ β' ε α}
    (hm : c → Matches I r r' E m m') (hn : ¬c → Matches I r r' E n n') :
    Matches I r r' E (if c then m else n) (if c then m' else n') := by
  split
  · exact hm ‹_›
  · exact hn ‹_›

theorem onlyIf {c : Prop} [Decidable c] {n : Script δ β ε Unit} {n' : Script γ β' ε Unit}
    (hn : c → Matches I r r' E n n') (hnot : ¬c → ∀ s t, r s t → r' s t) :
    Matches I r r' E (Script.onlyIf c n) (Script.onlyIf c n') :=
  .ite hn fun hc => fun s t hr => .answer () (hnot hc s t hr) .nil

/-- What is held back on both sides corresponds, if it comes at all. -/
theorem withhold {m : Script δ β ε Bool} {m' : Script γ β' ε Bool} (hm : Matches I r r' E m m') :
    Matches I r r' E m.withhold m'.withhold := by
  intro s t hr
  obtain ⟨hresult, hanswered, hfailed, hitems⟩ := hm s t hr
  unfold Script.withhold
  dsimp only
  rw [← hresult]
  split
  · refine ⟨rfl, hanswered, hfailed, ?_⟩
    simpa only [Trace.items_mk, List.filterMap_append, Trace.filterMap_notes,
      Trace.filterMap_emitted, List.nil_append] using hitems
  · refine ⟨rfl, hanswered, hfailed, ?_⟩
    simp only [Trace.items_mk, Trace.filterMap_notes]
    exact .nil

/-- Loops of scripts that match go round equally often. -/
theorem loop {m : Script δ β ε (Option α)} {m' : Script γ β' ε (Option α)}
    (hm : Matches I r r E m m') {size : δ → Nat} {size' : γ → Nat} (h : Descends size m)
    (h' : Descends size' m') : Matches I r r E (Script.loop m size h) (Script.loop m' size' h') := by
  intro s t hr
  induction hn : size s using Nat.strongRecOn generalizing s t with
  | ind n ih =>
    subst hn
    rw [loop_eq m, loop_eq m']
    refine (hm s t hr).bind fun a ha hr' => ?_
    cases a with
    | some a => exact answer a _ _ hr'
    | none => exact ih _ (h s ha) _ _ hr' rfl

/-- Draining lists whose items correspond, if what is done with each of them matches. -/
theorem drain {ι ι' : Type} {E : Halt → δ → γ → Prop} {feed : ι → Script δ β Halt Unit}
    {feed' : ι' → Script γ β' Halt Unit} {xs : List ι} {ys : List ι'}
    (h : List.Forall₂ (fun x y => Matches I r r E (feed x) (feed' y)) xs ys) {s : δ} {t : γ}
    (hr : r s t) :
    ((Script.drain feed).run (s, xs)).Matches I (fun s t => r s.1 t.1) (fun e s t => E e s.1 t.1)
      ((Script.drain feed').run (t, ys)) := by
  induction h generalizing s t with
  | nil =>
    rw [run_drain_nil, run_drain_nil]
    exact ⟨rfl, fun _ _ => hr, nofun, .nil⟩
  | @cons x y xs ys hxy _ ih =>
    have hfed := hxy s t hr
    rcases hx : (feed x).run s with ⟨e | _, s', effects⟩ <;>
      rcases hy : (feed' y).run t with ⟨e' | _, t', effects'⟩ <;>
      rw [hx, hy] at hfed <;> obtain ⟨hresult, hanswered, hfailed, hitems⟩ := hfed <;>
      cases hresult
    · rw [run_drain_cons_error hx, run_drain_cons_error hy]
      refine ⟨rfl, nofun, fun _ he => by cases he; exact hfailed e rfl, ?_⟩
      rwa [Trace.items_mk, Trace.items_mk, Trace.filterMap_mapState, Trace.filterMap_mapState]
    · rw [run_drain_cons hx, run_drain_cons hy]
      refine (ih (hanswered () rfl)).after ?_
      rwa [Trace.filterMap_mapState, Trace.filterMap_mapState]

end Script.Matches

end BusDecode
