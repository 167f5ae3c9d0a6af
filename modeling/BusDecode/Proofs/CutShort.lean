import BusDecode.Proofs.Script
import BusDecode.Proofs.Source
import BusDecode.Script.Drain

/-!
# Runs that are cut short

A script that reads from a source which may break runs beside the same script on a source which does
not.  Until the source breaks the two cannot be told apart, and then the first one is over: it fails
with the fault, and what it has shown is how the other one begins (`Trace.Cut`).  There is one lemma
for each building block, so that scripts are compared line by line; nothing in between may catch the
fault and go on.
-/

set_option autoImplicit false

namespace BusDecode

/-! ## Runs -/

namespace Trace

variable {δ γ β ε ε' α α' : Type}

/-- What can be seen of a run: its effects, but for the states next to the items. -/
def shown (t : Trace δ β ε α) : List (Effect Unit β) :=
  t.effects.map (Effect.mapState fun _ => ())

theorem items_eq (t : Trace δ β ε α) : t.items = t.shown.filterMap Effect.item? := by
  rw [shown, List.filterMap_map, items]
  congr 1
  funext e
  exact (item?_mapState _ e).symm

theorem events_eq (t : Trace δ β ε α) : t.events = t.shown.filterMap Effect.event? := by
  rw [shown, List.filterMap_map, events]
  congr 1
  funext e
  cases e <;> rfl

@[simp] theorem shown_after (before : List (Effect δ β)) (t : Trace δ β ε α) :
    (t.after before).shown = before.map (Effect.mapState fun _ => ()) ++ t.shown :=
  List.map_append

@[simp] theorem shown_mapState (f : δ → γ) (t : Trace δ β ε α) :
    (t.mapState f).shown = t.shown := by
  simp only [Trace.shown, Trace.mapState, List.map_map]
  congr 1
  funext e
  cases e <;> rfl

/-- A run beside a sound one: both end alike, in related states, with the same to be seen; or the
first one is cut short by the fault and has shown how the other one begins. -/
inductive Cut (fault : ε) (lost : δ → Prop) (r : δ → γ → Prop) (t : Trace δ β ε α)
    (t' : Trace γ β ε α) : Prop
  | whole (result : t.result = t'.result) (state : r t.state t'.state)
      (shown : t.shown = t'.shown) : Cut fault lost r t t'
  | short (result : t.result = .error fault) (state : lost t.state)
      (shown : t.shown <+: t'.shown) : Cut fault lost r t t'

namespace Cut

variable {fault : ε} {lost : δ → Prop} {r : δ → γ → Prop}

/-- What comes before the two runs, if it shows the same. -/
theorem after {before : List (Effect δ β)} {before' : List (Effect γ β)} {t : Trace δ β ε α}
    {t' : Trace γ β ε α} (h : t.Cut fault lost r t')
    (hbefore : before.map (Effect.mapState fun _ => ()) =
      before'.map (Effect.mapState fun _ => ())) :
    (t.after before).Cut fault lost r (t'.after before') := by
  cases h with
  | whole result state shown =>
    exact .whole result state (by rw [shown_after, shown_after, hbefore, shown])
  | short result state shown =>
    refine .short result state ?_
    rw [shown_after, shown_after, hbefore]
    exact (List.prefix_append_right_inj _).2 shown

/-- The two runs seen from other kinds of state. -/
theorem mapState {δ' γ' : Type} {lost' : δ' → Prop} {r' : δ' → γ' → Prop} {f : δ → δ'} {g : γ → γ'}
    {t : Trace δ β ε α} {t' : Trace γ β ε α} (h : t.Cut fault lost r t')
    (hr : ∀ s s', r s s' → r' (f s) (g s')) (hlost : ∀ s, lost s → lost' (f s)) :
    (t.mapState f).Cut fault lost' r' (t'.mapState g) := by
  cases h with
  | whole result state shown =>
    exact .whole result (hr _ _ state) (by rw [shown_mapState, shown_mapState, shown])
  | short result state shown =>
    refine .short result (hlost _ state) ?_
    rw [shown_mapState, shown_mapState]
    exact shown

/-- Going on after the two runs.  A run that was cut short does not go on. -/
theorem bind {m : Script δ β ε α} {m' : Script γ β ε α} {f : α → Script δ β ε α'}
    {f' : α → Script γ β ε α'} {s : δ} {t : γ} (h : (m.run s).Cut fault lost r (m'.run t))
    (hf : ∀ a, (m.run s).result = .ok a → r (m.run s).state (m'.run t).state →
      ((f a).run (m.run s).state).Cut fault lost r ((f' a).run (m'.run t).state)) :
    ((m >>= f).run s).Cut fault lost r ((m' >>= f').run t) := by
  cases h with
  | whole result state shown =>
    rw [Script.run_bind, Script.run_bind]
    rcases hm : m.run s with ⟨_ | a, s', effects⟩ <;>
      rcases hm' : m'.run t with ⟨_ | b, t', effects'⟩ <;>
      rw [hm, hm'] at result state shown hf <;> cases result
    · exact .whole rfl state shown
    · exact (hf a rfl state).after shown
  | short result state shown =>
    rcases hm : m.run s with ⟨e | a, s', effects⟩ <;> rw [hm] at result state shown <;>
      cases result
    rw [Script.run_bind_error hm]
    refine .short rfl state (shown.trans ?_)
    rw [Script.run_bind]
    split
    · rename_i b t' effects' hm'
      rw [hm', shown_after]
      exact List.prefix_append _ _
    · rename_i e' t' effects' hm'
      rw [hm']
      exact List.prefix_refl _

end Cut

end Trace

/-! ## Scripts -/

namespace Script

variable {δ γ β ε ε' α α' : Type}

/-! ### What is seen of a script that holds back its items -/

/-- What comes out in the end of items that were held back. -/
def released (result : Except ε Bool) (items : List β) : List (Effect Unit β) :=
  match result with
  | .ok true => items.map fun item => .emit item ()
  | _ => []

theorem released_error (e : ε) (items : List β) : released (.error e) items = [] := rfl

theorem shown_withhold (m : Script δ β ε Bool) (s : δ) :
    (m.withhold.run s).shown =
      (m.run s).shown.filter Effect.isNote ++ released (m.run s).result (m.run s).items := by
  have hnotes : ((m.run s).effects.filter Effect.isNote).map (Effect.mapState fun _ => ()) =
      (m.run s).shown.filter Effect.isNote := by
    have hsame : (Effect.isNote ∘ Effect.mapState fun _ => () : Effect δ β → Bool) =
        Effect.isNote := by
      funext e
      cases e <;> rfl
    rw [Trace.shown, List.filter_map, hsame]
  unfold withhold released
  rw [← hnotes]
  rcases hresult : (m.run s).result with _ | _ | _
  · simp only [hresult, Trace.shown, List.append_nil]
  · simp only [hresult, Trace.shown, List.append_nil]
  · simp [hresult, Trace.shown, Effect.mapState]

/-- From related states the run of the first script goes with that of the other one, or is cut
short. -/
def Cut (fault : ε) (lost : δ → Prop) (r : δ → γ → Prop) (m : Script δ β ε α)
    (m' : Script γ β ε α) : Prop :=
  ∀ s t, r s t → (m.run s).Cut fault lost r (m'.run t)

namespace Cut

variable {fault : ε} {lost : δ → Prop} {r : δ → γ → Prop} {m : Script δ β ε α}
  {m' : Script γ β ε α}

theorem answer (a : α) : Cut fault lost r (pure a : Script δ β ε α) (pure a) :=
  fun _ _ h => .whole rfl h rfl

theorem fail (e : ε) : Cut fault lost r (Script.fail e : Script δ β ε α) (Script.fail e) :=
  fun _ _ h => .whole rfl h rfl

theorem read {f : δ → α} {g : γ → α} (h : ∀ s t, r s t → f s = g t) :
    Cut fault lost r (Script.read f : Script δ β ε α) (Script.read g) :=
  fun s t hr => .whole (congrArg Except.ok (h s t hr)) hr rfl

theorem modify {f : δ → δ} {g : γ → γ} (h : ∀ s t, r s t → r (f s) (g t)) :
    Cut fault lost r (Script.modify f : Script δ β ε Unit) (Script.modify g) :=
  fun s t hr => .whole rfl (h s t hr) rfl

theorem note {f : δ → Event} {g : γ → Event} (h : ∀ s t, r s t → f s = g t) :
    Cut fault lost r (Script.note f : Script δ β ε Unit) (Script.note g) :=
  fun s t hr => .whole rfl hr (congrArg (fun e => [Effect.note e]) (h s t hr))

theorem emit {f : δ → β} {g : γ → β} (h : ∀ s t, r s t → f s = g t) :
    Cut fault lost r (Script.emit f : Script δ β ε Unit) (Script.emit g) :=
  fun s t hr => .whole rfl hr (congrArg (fun b => [Effect.emit b ()]) (h s t hr))

theorem lift {step : δ → Except ε α × δ × List Event} {step' : γ → Except ε α × γ × List Event}
    (h : ∀ s t, r s t →
      ((step s).1 = (step' t).1 ∧ r (step s).2.1 (step' t).2.1 ∧ (step s).2.2 = (step' t).2.2) ∨
      ((step s).1 = .error fault ∧ lost (step s).2.1 ∧ (step s).2.2 = [])) :
    Cut fault lost r (Script.lift step : Script δ β ε α) (Script.lift step') := by
  intro s t hr
  rw [run_lift, run_lift]
  rcases h s t hr with ⟨hresult, hstate, hevents⟩ | ⟨hresult, hstate, hevents⟩
  · refine .whole hresult hstate ?_
    simp only [Trace.shown, hevents, List.map_map]
    rfl
  · refine .short hresult hstate ?_
    rw [hevents]
    exact List.nil_prefix

theorem bind {f : α → Script δ β ε α'} {f' : α → Script γ β ε α'} (hm : Cut fault lost r m m')
    (hf : ∀ a, Cut fault lost r (f a) (f' a)) : Cut fault lost r (m >>= f) (m' >>= f') :=
  fun s t hr => (hm s t hr).bind fun a _ hr' => hf a _ _ hr'

theorem mapError (hm : Cut fault lost r m m') (f : ε → ε') :
    Cut (f fault) lost r (m.mapError f) (m'.mapError f) := by
  intro s t hr
  cases hm s t hr with
  | whole result state shown => exact .whole (congrArg (Except.mapError f) result) state shown
  | short result state shown => exact .short (congrArg (Except.mapError f) result) state shown

theorem focus {δ' γ' : Type} {lost' : δ' → Prop} {r' : δ' → γ' → Prop} {enter : δ' → δ}
    {leave : δ → δ'} {enter' : γ' → γ} {leave' : γ → γ'} (hm : Cut fault lost r m m')
    (henter : ∀ s t, r' s t → r (enter s) (enter' t))
    (hleave : ∀ s t, r s t → r' (leave s) (leave' t)) (hlost : ∀ s, lost s → lost' (leave s)) :
    Cut fault lost' r' (m.focus enter leave) (m'.focus enter' leave') :=
  fun s t hr => (hm _ _ (henter s t hr)).mapState hleave hlost

/-- Going on with whatever came of two scripts, if the fault is then failed with as well. -/
theorem attempt_bind {fault' : ε'} {f : Except ε α → Script δ β ε' α'}
    {f' : Except ε α → Script γ β ε' α'} (hm : Cut fault lost r m m')
    (hf : ∀ outcome, Cut fault' lost r (f outcome) (f' outcome))
    (hfault : f (.error fault) = Script.fail fault') :
    Cut fault' lost r (m.attempt >>= f) (m'.attempt >>= f') := by
  intro s t hr
  cases hm s t hr with
  | whole result state shown =>
    have hattempt : ((m.attempt : Script δ β ε' _).run s).Cut fault' lost r (m'.attempt.run t) :=
      .whole (congrArg Except.ok result) state shown
    exact hattempt.bind fun a _ hr' => hf a _ _ hr'
  | short result state shown =>
    have hrun : (m.attempt >>= f).run s = ⟨.error fault', (m.run s).state, (m.run s).effects⟩ := by
      rw [run_bind]
      simp only [attempt, result, hfault]
      exact congrArg (Trace.mk _ _) (List.append_nil _)
    have hrun' : ((m'.attempt >>= f').run t) =
        ((f' (m'.run t).result).run (m'.run t).state).after (m'.run t).effects :=
      run_bind _ _ _
    rw [hrun, hrun']
    refine .short rfl state (shown.trans ?_)
    rw [Trace.shown_after]
    exact List.prefix_append _ _

theorem withhold {m : Script δ β ε Bool} {m' : Script γ β ε Bool} (hm : Cut fault lost r m m') :
    Cut fault lost r m.withhold m'.withhold := by
  intro s t hr
  cases hm s t hr with
  | whole result state shown =>
    refine .whole ?_ ?_ ?_
    · rw [result_withhold, result_withhold, result]
    · rw [state_withhold, state_withhold]
      exact state
    · rw [shown_withhold, shown_withhold, result, shown, Trace.items_eq, Trace.items_eq, shown]
  | short result state shown =>
    refine .short ?_ ?_ ?_
    · rw [result_withhold, result]
    · rw [state_withhold]
      exact state
    · rw [shown_withhold, shown_withhold, result, released_error, List.append_nil]
      exact (shown.filter _).trans (List.prefix_append _ _)

/-- Loops go round together until one is over, or cut short. -/
theorem loop {m : Script δ β ε (Option α)} {m' : Script γ β ε (Option α)}
    (hm : Cut fault lost r m m') {size : δ → Nat} {size' : γ → Nat} (h : Descends size m)
    (h' : Descends size' m') :
    Cut fault lost r (Script.loop m size h) (Script.loop m' size' h') := by
  intro s t hr
  induction hn : size s using Nat.strongRecOn generalizing s t with
  | ind n ih =>
    subst hn
    rw [loop_eq m, loop_eq m']
    refine (hm s t hr).bind fun a ha hr' => ?_
    cases a with
    | some a => exact answer a _ _ hr'
    | none => exact ih _ (h s ha) _ _ hr' rfl

end Cut

end Script

/-! ## Sources that break -/

namespace Source

variable {δ σ τ α : Type}

/-- The same state beside two sources. -/
def Beside (K : σ → τ → Prop) (s : δ × σ) (t : δ × τ) : Prop :=
  s.1 = t.1 ∧ K s.2 t.2

/-- What is asked of two sources, one of which may break: both answer the same and stay related, or
the first one has broken and says so. -/
def Abreast (fault : Halt) (lost : σ → Prop) (K : σ → τ → Prop) (x : Except Halt α × σ)
    (y : Except Halt α × τ) : Prop :=
  (x.1 = y.1 ∧ K x.2 y.2) ∨ (x.1 = .error fault ∧ lost x.2)

theorem Abreast.cases {fault : Halt} {lost : σ → Prop} {K : σ → τ → Prop} {x : Except Halt α × σ}
    {y : Except Halt α × τ} (h : Abreast fault lost K x y) :
    (∃ a s t, x = (a, s) ∧ y = (a, t) ∧ K s t) ∨ ∃ s, x = (.error fault, s) ∧ lost s := by
  obtain ⟨a, s⟩ := x
  obtain ⟨b, t⟩ := y
  rcases h with ⟨rfl, hrel⟩ | ⟨rfl, hlost⟩
  · exact .inl ⟨a, s, t, rfl, rfl, hrel⟩
  · exact .inr ⟨s, rfl, hlost⟩

variable [Source σ α] [Source τ α]

/-- A source reads as another one until it breaks. -/
structure Until (fault : Halt) (lost : σ → Prop) (K : σ → τ → Prop) : Prop where
  recv : ∀ s t, K s t → Abreast fault lost K (Source.recv s) (Source.recv t)
  peek : ∀ s t, K s t → Abreast fault lost K (Source.peek s) (Source.peek t)

/-- A source reads as another one until it breaks, and reports the same events; a broken one has
nothing to report. -/
structure Breaks (fault : Halt) (lost : σ → Prop) (K : σ → τ → Prop) : Prop
    extends Until fault lost K where
  takeEvents : ∀ s t, K s t → (Source.takeEvents s).1 = (Source.takeEvents t).1 ∧
    K (Source.takeEvents s).2 (Source.takeEvents t).2
  silent : ∀ s, lost s → Source.takeEvents s = ([], s)

variable {fault : Halt} {lost : σ → Prop} {K : σ → τ → Prop}

/-- The end of a stream is no item, and nothing else is. -/
def orEnd {σ α : Type} : Except Halt α × σ → Except Halt (Option α) × σ
  | (.ok a, s) => (.ok (some a), s)
  | (.error .endOfStream, s) => (.ok none, s)
  | (.error e, s) => (.error e, s)

omit [Source σ α] [Source τ α] in
/-- The end of a stream is looked for alike, if the fault is not taken for it. -/
theorem Abreast.orEnd {x : Except Halt α × σ} {y : Except Halt α × τ}
    (h : Abreast fault lost K x y) (hfault : fault ≠ .endOfStream) :
    Abreast fault lost K (orEnd x) (orEnd y) := by
  obtain ⟨a, s, t, rfl, rfl, hrel⟩ | ⟨s, rfl, hlost⟩ := h.cases
  · left
    cases a with
    | ok a => exact ⟨rfl, hrel⟩
    | error e => cases e <;> exact ⟨rfl, hrel⟩
  · right
    cases fault
    case endOfStream => exact absurd rfl hfault
    all_goals exact ⟨rfl, hlost⟩

/-- A source that reads as another one never breaks. -/
theorem Alike.until (hK : Alike K) : Until fault (fun _ => False) K where
  recv s t h := .inl (hK.recv s t h)
  peek s t h := .inl (hK.peek s t h)

theorem Until.recv? (hK : Until fault lost K) (hfault : fault ≠ .endOfStream) {s : σ} {t : τ}
    (h : K s t) : Abreast fault lost K (Source.recv? s) (Source.recv? t) :=
  (hK.recv s t h).orEnd hfault

theorem Until.peek? (hK : Until fault lost K) (hfault : fault ≠ .endOfStream) {s : σ} {t : τ}
    (h : K s t) : Abreast fault lost K (Source.peek? s) (Source.peek? t) :=
  (hK.peek s t h).orEnd hfault

end Source

namespace Script.Cut

open Source (Beside)

variable {δ σ τ α β : Type} [Source σ α] [Source τ α] {fault : Halt} {lost : σ → Prop}
  {K : σ → τ → Prop}

theorem next? (hK : Source.Breaks fault lost K) (hfault : fault ≠ .endOfStream) :
    Cut fault (fun s : δ × σ => lost s.2) (Beside K)
      (Script.next? : Script (δ × σ) β Halt (Option α)) Script.next? := by
  refine lift fun s t ⟨hstate, hrel⟩ => ?_
  rcases hK.recv? hfault hrel with ⟨hresult, hrel'⟩ | ⟨hresult, hlost⟩
  · obtain ⟨hevents, hrel''⟩ := hK.takeEvents _ _ hrel'
    exact .inl ⟨hresult, ⟨hstate, hrel''⟩, hevents⟩
  · have hsilent := hK.silent _ hlost
    refine .inr ⟨hresult, ?_, ?_⟩
    · dsimp only
      rw [hsilent]
      exact hlost
    · dsimp only
      rw [hsilent]

/-- Feeding goes on until the source breaks. -/
theorem drain (hK : Source.Breaks fault lost K) (hfault : fault ≠ .endOfStream)
    (feed : α → Script δ β Halt Unit) :
    Cut fault (fun s : δ × σ => lost s.2) (Beside K) (Script.drain feed) (Script.drain feed) := by
  refine loop (bind (next? hK hfault) fun item => ?_) _ _
  cases item with
  | none => exact answer _
  | some a =>
    refine bind (fun s t ⟨hstate, hrel⟩ => ?_) fun _ => answer _
    obtain ⟨d, source⟩ := s
    obtain ⟨_, source'⟩ := t
    obtain rfl : d = _ := hstate
    refine .whole rfl ⟨rfl, hrel⟩ ?_
    exact (Trace.shown_mapState _ _).trans (Trace.shown_mapState _ _).symm

end Script.Cut

end BusDecode
