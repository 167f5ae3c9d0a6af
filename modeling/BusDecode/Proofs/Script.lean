import BusDecode.Script.Drain
import BusDecode.Stream.Sink

/-!
# Reasoning about runs

What a run hands on, read off its trace, and two ways to speak about a script without opening it.
`Answers` is total correctness: the script does answer, and its answer, its items and its final
state are as told.  `Shows` bounds what can be seen on the way: every state next to an emitted item,
and the last one, is related to the first, and every emitted item has a property.  Each comes with
one lemma for each building block, so that a script is treated line by line.

An array takes everything (`play_array`), and draining a list is feeding its items in order
(`run_drain_cons`).
-/

set_option autoImplicit false

namespace BusDecode

/-! ## Items of a trace -/

namespace Trace

variable {δ γ β ε α : Type}

@[simp] theorem items_mk (r : Except ε α) (s : δ) (effects : List (Effect δ β)) :
    (⟨r, s, effects⟩ : Trace δ β ε α).items = effects.filterMap Effect.item? := rfl

@[simp] theorem items_after (before : List (Effect δ β)) (t : Trace δ β ε α) :
    (t.after before).items = before.filterMap Effect.item? ++ t.items := by
  simp [items, after]

@[simp] theorem items_after_emit (item : β) (fallback : δ) (t : Trace δ β ε α) :
    (t.after [.emit item fallback]).items = item :: t.items := rfl

theorem item?_mapState (f : δ → γ) (e : Effect δ β) : (e.mapState f).item? = e.item? := by
  cases e <;> rfl

theorem filterMap_mapState (f : δ → γ) (effects : List (Effect δ β)) :
    (effects.map (Effect.mapState f)).filterMap Effect.item? = effects.filterMap Effect.item? := by
  rw [List.filterMap_map]
  congr 1
  funext e
  exact item?_mapState f e

@[simp] theorem items_mapState (f : δ → γ) (t : Trace δ β ε α) :
    (t.mapState f).items = t.items :=
  filterMap_mapState f t.effects

@[simp] theorem item?_note (event : Event) :
    (Effect.note event : Effect δ β).item? = none := rfl

@[simp] theorem item?_emit (item : β) (fallback : δ) :
    (Effect.emit item fallback).item? = some item := rfl

@[simp] theorem event?_note (event : Event) :
    (Effect.note event : Effect δ β).event? = some event := rfl

@[simp] theorem event?_emit (item : β) (fallback : δ) :
    (Effect.emit item fallback).event? = none := rfl

theorem filterMap_notes (effects : List (Effect δ β)) :
    (effects.filter Effect.isNote).filterMap Effect.item? = [] := by
  induction effects with
  | nil => rfl
  | cons e rest ih => cases e <;> simpa [Effect.isNote, Effect.item?] using ih

theorem filterMap_noted (events : List Event) :
    (events.map (Effect.note : Event → Effect δ β)).filterMap Effect.item? = [] := by
  rw [List.filterMap_map, List.filterMap_eq_nil_iff]
  simp

theorem filterMap_emitted (xs : List β) (s : δ) :
    (xs.map fun item => Effect.emit item s).filterMap Effect.item? = xs := by
  induction xs with
  | nil => rfl
  | cons x xs ih => simpa [Effect.item?] using ih

/-- A sink that takes every item leaves a run to end as it would by itself; `after` says what the
sink is once it has taken some items. -/
theorem play_mapItem {κ β' : Type} [Sink κ β'] {f : β → β'} {after : List β → κ}
    (haccept : ∀ xs b, Sink.emit (after xs) (f b) = (.ok (), after (xs ++ [b])))
    (t : Trace δ β Halt α) :
    (t.mapItem f).play (after []) = ⟨t.result, t.state, after t.items, t.events⟩ := by
  suffices h : ∀ (effects : List (Effect δ β)) (xs : List β) (done : List Event),
      playFrom t.result t.state (effects.map (Effect.mapItem f)) (after xs) done =
        ⟨t.result, t.state, after (xs ++ effects.filterMap Effect.item?),
          done.reverse ++ effects.filterMap Effect.event?⟩ from
    h t.effects [] []
  intro effects
  induction effects with
  | nil => intro xs done; simp [playFrom]
  | cons e rest ih =>
    intro xs done
    cases e with
    | note event => simp [Effect.mapItem, playFrom, ih, List.filterMap_cons]
    | emit item fallback => simp [Effect.mapItem, playFrom, haccept, ih, List.filterMap_cons]

theorem mapItem_id (t : Trace δ β ε α) : t.mapItem id = t := by
  have hid : (Effect.mapItem id : Effect δ β → Effect δ β) = id := by
    funext e
    cases e <;> rfl
  simp [mapItem, hid]

/-- An array takes every item. -/
theorem play_array (t : Trace δ β Halt α) (kept : Array β) :
    t.play kept = ⟨t.result, t.state, kept ++ t.items.toArray, t.events⟩ := by
  have haccept : ∀ xs b, Sink.emit (kept ++ List.toArray xs) (id b) =
      (.ok (), kept ++ (xs ++ [b]).toArray) := by simp
  have h := play_mapItem haccept t
  rw [mapItem_id] at h
  simpa using h

/-- A sink does not look at the state. -/
theorem play_mapState {γ κ : Type} [Sink κ β] (f : δ → γ) (t : Trace δ β Halt α) (sink : κ) :
    (t.mapState f).play sink = (t.play sink).mapState f := by
  suffices h : ∀ (effects : List (Effect δ β)) (sink : κ) (done : List Event),
      playFrom t.result (f t.state) (effects.map (Effect.mapState f)) sink done =
        (playFrom t.result t.state effects sink done).mapState f from h _ _ _
  intro effects
  induction effects with
  | nil => exact fun _ _ => rfl
  | cons e rest ih =>
    intro sink done
    cases e with
    | note event => exact ih sink (event :: done)
    | emit item fallback =>
      simp only [List.map_cons, Effect.mapState, playFrom]
      split
      · exact ih _ _
      · rfl

/-- A run that hands on nothing is the same with any sink. -/
theorem play_noted {κ : Type} [Sink κ β] (result : Except Halt α) (state : δ) (told : List Event)
    (sink : κ) :
    (⟨result, state, told.map .note⟩ : Trace δ β Halt α).play sink =
      ⟨result, state, sink, told⟩ := by
  suffices h : ∀ done,
      playFrom result state (told.map (Effect.note : Event → Effect δ β)) sink done =
        ⟨result, state, sink, done.reverse ++ told⟩ from h []
  induction told with
  | nil => simp [playFrom]
  | cons event rest ih =>
    intro done
    simp [playFrom, ih]

/-- Whatever a sink takes, the state left behind is the last one or one next to an emitted item. -/
theorem play_state {κ : Type} [Sink κ β] (t : Trace δ β Halt α) (sink : κ) :
    (t.play sink).state = t.state ∨
      ∃ item, .emit item (t.play sink).state ∈ t.effects := by
  suffices h : ∀ (effects : List (Effect δ β)) (sink : κ) (done : List Event),
      (playFrom t.result t.state effects sink done).state = t.state ∨
        ∃ item, .emit item (playFrom t.result t.state effects sink done).state ∈ effects from
    h t.effects sink []
  intro effects
  induction effects with
  | nil => intro sink done; exact .inl rfl
  | cons e rest ih =>
    intro sink done
    have hlater : ∀ {state : δ}, (state = t.state ∨ ∃ item, .emit item state ∈ rest) →
        state = t.state ∨ ∃ item, .emit item state ∈ e :: rest :=
      Or.imp_right fun ⟨item, hitem⟩ => ⟨item, List.mem_cons_of_mem _ hitem⟩
    cases e with
    | note event => exact hlater (ih sink (event :: done))
    | emit item fallback =>
      unfold playFrom
      split
      · exact hlater (ih _ done)
      · exact .inr ⟨item, List.mem_cons_self⟩

end Trace

namespace Script

variable {δ γ β ε ε' α α' : Type}

/-! ## How a script ends -/

/-- The run from `s` ends as told: an answer, the state left behind and the items handed on satisfy
`Q`; a failure, its state and its items satisfy `E`. -/
def Ends (m : Script δ β ε α) (s : δ) (Q : α → δ → List β → Prop)
    (E : ε → δ → List β → Prop) : Prop :=
  match m.run s with
  | ⟨.ok a, s', effects⟩ => Q a s' (effects.filterMap Effect.item?)
  | ⟨.error e, s', effects⟩ => E e s' (effects.filterMap Effect.item?)

/-- The script answers from `s`; its answer, the state it leaves and the items it hands on satisfy
`Q`. -/
def Answers (m : Script δ β ε α) (s : δ) (Q : α → δ → List β → Prop) : Prop :=
  Ends m s Q fun _ _ _ => False

theorem Answers.run {m : Script δ β ε α} {s : δ} {Q : α → δ → List β → Prop}
    (h : Answers m s Q) :
    ∃ a s' effects, m.run s = ⟨.ok a, s', effects⟩ ∧ Q a s' (effects.filterMap Effect.item?) := by
  unfold Answers Ends at h
  split at h
  · rename_i a s' effects hm
    exact ⟨a, s', effects, hm, h⟩
  · exact h.elim

/-- An array takes the items of a script that answers. -/
theorem Answers.played {m : Script δ β Halt α} {s : δ} {Q : α → δ → List β → Prop}
    (h : Answers m s Q) (kept : Array β) :
    ∃ a s' xs events, (m.run s).play kept = ⟨.ok a, s', kept ++ xs.toArray, events⟩ ∧ Q a s' xs := by
  obtain ⟨a, s', effects, hrun, hQ⟩ := h.run
  rw [hrun, Trace.play_array]
  exact ⟨a, s', _, _, rfl, hQ⟩

/-- What goes on after two runs that are the same is the same. -/
theorem run_bind_congr {m : Script δ β ε α} {f : α → Script δ β ε α'} {s t : δ}
    (h : m.run s = m.run t) : (m >>= f).run s = (m >>= f).run t := by
  rw [run_bind, run_bind, h]

theorem run_mapError (m : Script δ β ε α) (f : ε → ε') (s : δ) :
    (m.mapError f).run s = ⟨(m.run s).result.mapError f, (m.run s).state, (m.run s).effects⟩ :=
  rfl

theorem result_withhold (m : Script δ β ε Bool) (s : δ) :
    (m.withhold.run s).result = (m.run s).result := by
  unfold withhold
  dsimp only
  split <;> rfl

theorem state_withhold (m : Script δ β ε Bool) (s : δ) :
    (m.withhold.run s).state = (m.run s).state := by
  unfold withhold
  dsimp only
  split <;> rfl

theorem run_withhold {m : Script δ β ε Bool} {s s' : δ} {effects : List (Effect δ β)}
    (h : m.run s = ⟨.ok true, s', effects⟩) :
    m.withhold.run s = ⟨.ok true, s', effects.filter Effect.isNote ++
      (effects.filterMap Effect.item?).map fun item => .emit item s'⟩ := by
  simp only [withhold, h, Trace.items_mk]

/-- A loop whose first round answers has answered. -/
theorem run_loop_once {m : Script δ β ε (Option α)} {size : δ → Nat} {hd : Descends size m}
    {s s' : δ} {a : α} {effects : List (Effect δ β)}
    (h : m.run s = ⟨.ok (some a), s', effects⟩) :
    (loop m size hd).run s = ⟨.ok a, s', effects⟩ := by
  rw [loop_eq, run_bind_ok h]
  simp [Trace.after]

namespace Ends

variable {m : Script δ β ε α} {s : δ} {Q : α → δ → List β → Prop}
  {Q₀ : Unit → δ → List β → Prop} {E : ε → δ → List β → Prop}

theorem answer {a : α} (h : Q a s []) : Ends (pure a : Script δ β ε α) s Q E :=
  h

theorem fail {e : ε} (h : E e s []) : Ends (Script.fail e : Script δ β ε α) s Q E :=
  h

theorem read {f : δ → α} (h : Q (f s) s []) : Ends (Script.read f : Script δ β ε α) s Q E :=
  h

theorem modify {f : δ → δ} (h : Q₀ () (f s) []) :
    Ends (Script.modify f : Script δ β ε Unit) s Q₀ E :=
  h

theorem note {f : δ → Event} (h : Q₀ () s []) :
    Ends (Script.note f : Script δ β ε Unit) s Q₀ E :=
  h

theorem emit {f : δ → β} (h : Q₀ () s [f s]) :
    Ends (Script.emit f : Script δ β ε Unit) s Q₀ E :=
  h

/-- A step inside the state hands on nothing. -/
theorem lift {step : δ → Except ε α × δ × List Event} :
    Ends (Script.lift step : Script δ β ε α) s (fun _ _ xs => xs = []) fun _ _ xs => xs = [] := by
  unfold Ends
  rw [run_lift]
  rcases step s with ⟨_ | a, s', events⟩ <;> exact Trace.filterMap_noted events

theorem bind {f : α → Script δ β ε α'} {Q : α' → δ → List β → Prop}
    (h : Ends m s (fun a s' xs => Ends (f a) s' (fun b s'' ys => Q b s'' (xs ++ ys))
      fun e s'' ys => E e s'' (xs ++ ys)) E) :
    Ends (m >>= f) s Q E := by
  unfold Ends at h ⊢
  rw [run_bind]
  generalize m.run s = t at h ⊢
  rcases t with ⟨_ | a, s', effects⟩
  · exact h
  · dsimp only at h ⊢
    generalize (f a).run s' = t at h ⊢
    rcases t with ⟨_ | b, s'', effects'⟩ <;> simpa [Trace.after] using h

theorem bind_error {f : α → Script δ β ε α'} {Q : α' → δ → List β → Prop} {e : ε} {s' : δ}
    (hm : m.run s = ⟨.error e, s', []⟩) (h : E e s' []) : Ends (m >>= f) s Q E := by
  unfold Ends
  rw [run_bind_error hm]
  exact h

/-- A part whose run is known and hands on nothing. -/
theorem bind_run {f : α → Script δ β ε α'} {Q : α' → δ → List β → Prop} {a : α} {s' : δ}
    (hm : m.run s = ⟨.ok a, s', []⟩) (h : Ends (f a) s' Q E) : Ends (m >>= f) s Q E := by
  unfold Ends
  rw [run_bind_ok hm, after_nil]
  exact h

theorem imp {Q' : α → δ → List β → Prop} {E' : ε → δ → List β → Prop} (h : Ends m s Q E)
    (hQ : ∀ a s' xs, Q a s' xs → Q' a s' xs) (hE : ∀ e s' xs, E e s' xs → E' e s' xs) :
    Ends m s Q' E' := by
  unfold Ends at h ⊢
  generalize m.run s = t at h ⊢
  rcases t with ⟨_ | a, s', effects⟩
  · exact hE _ _ _ h
  · exact hQ _ _ _ h

theorem mono {Q' : α → δ → List β → Prop} (h : Ends m s Q E)
    (hQ : ∀ a s' xs, Q a s' xs → Q' a s' xs) : Ends m s Q' E :=
  h.imp hQ fun _ _ _ he => he

/-- Two things known of one end. -/
theorem and {Q' : α → δ → List β → Prop} {E' : ε → δ → List β → Prop} (h : Ends m s Q E)
    (h' : Ends m s Q' E') :
    Ends m s (fun a s' xs => Q a s' xs ∧ Q' a s' xs) fun e s' xs => E e s' xs ∧ E' e s' xs := by
  unfold Ends at h h' ⊢
  generalize m.run s = t at h h' ⊢
  rcases t with ⟨_ | a, s', effects⟩ <;> exact ⟨h, h'⟩

/-- Every script ends. -/
theorem always (hQ : ∀ a s' xs, Q a s' xs) (hE : ∀ e s' xs, E e s' xs) : Ends m s Q E := by
  unfold Ends
  split
  · exact hQ _ _ _
  · exact hE _ _ _

/-- A run that is another one after effects that hand on nothing ends like that one. -/
theorem of_after {s' : δ} {effects : List (Effect δ β)}
    (hrun : m.run s = (m.run s').after effects) (hitems : effects.filterMap Effect.item? = [])
    (h : Ends m s' Q E) : Ends m s Q E := by
  unfold Ends at h ⊢
  rw [hrun]
  generalize m.run s' = t at h ⊢
  rcases t with ⟨_ | a, s'', later⟩ <;> simpa [Trace.after, hitems] using h

/-- A run that is another one seen from another kind of state ends like that one. -/
theorem of_mapState {m' : Script γ β ε α} {t : γ} {f : γ → δ}
    (hrun : m.run s = (m'.run t).mapState f)
    (h : Ends m' t (fun a t' => Q a (f t')) fun e t' => E e (f t')) : Ends m s Q E := by
  unfold Ends at h ⊢
  rw [hrun]
  generalize m'.run t = u at h ⊢
  rcases u with ⟨e | a, t', effects⟩
  · change E e (f t') (Trace.mapState f ⟨.error e, t', effects⟩).items
    rw [Trace.items_mapState]
    exact h
  · change Q a (f t') (Trace.mapState f ⟨.ok a, t', effects⟩).items
    rw [Trace.items_mapState]
    exact h

theorem onlyIf {c : Prop} [Decidable c] {m : Script δ β ε Unit} (h : c → Ends m s Q₀ E)
    (h' : ¬c → Q₀ () s []) : Ends (Script.onlyIf c m) s Q₀ E := by
  unfold Script.onlyIf
  split
  · exact h ‹_›
  · exact answer (h' ‹_›)

theorem ite {c : Prop} [Decidable c] {m' : Script δ β ε α} (h : c → Ends m s Q E)
    (h' : ¬c → Ends m' s Q E) : Ends (if c then m else m') s Q E := by
  split
  · exact h ‹_›
  · exact h' ‹_›

theorem mapError {f : ε → ε'} {E : ε' → δ → List β → Prop}
    (h : Ends m s Q fun e => E (f e)) : Ends (m.mapError f) s Q E := by
  unfold Ends at h ⊢
  unfold Script.mapError
  dsimp only
  generalize m.run s = t at h ⊢
  rcases t with ⟨_ | a, s', effects⟩ <;> exact h

/-- What is withheld follows once the script has answered `true`. -/
theorem withhold {m : Script δ β ε Bool} {Q : Bool → δ → List β → Prop}
    (h : Ends m s (fun b s' xs => Q b s' (if b then xs else [])) fun e s' _ => E e s' []) :
    Ends m.withhold s Q E := by
  unfold Ends at h ⊢
  unfold Script.withhold
  dsimp only
  generalize m.run s = t at h ⊢
  rcases t with ⟨_ | b, s', effects⟩
  · simpa [Trace.filterMap_notes] using h
  · cases b with
    | true =>
      dsimp only [Trace.items]
      rwa [List.filterMap_append, Trace.filterMap_notes, Trace.filterMap_emitted]
    | false => simpa [Trace.filterMap_notes] using h

/-- A loop whose rounds hand on nothing until one answers. -/
theorem loop_quiet {m : Script δ β ε (Option α)} {size : δ → Nat} {hd : Descends size m}
    {I : δ → Prop} (hs : I s)
    (h : ∀ s, I s → Ends m s (fun o s' xs => match o with
      | some a => Q a s' xs
      | none => I s' ∧ xs = []) E) :
    Ends (Script.loop m size hd) s Q E := by
  induction hn : size s using Nat.strongRecOn generalizing s with
  | ind n ih =>
    subst hn
    have hround := h s hs
    have hless := hd s
    rw [loop_eq]
    refine bind ?_
    unfold Ends at hround ⊢
    generalize m.run s = t at hround hless ⊢
    rcases t with ⟨_ | _ | a, s', effects⟩
    · exact hround
    · obtain ⟨hI, hxs⟩ := hround
      have hrest := ih _ (hless rfl) hI rfl
      unfold Ends at hrest
      simpa [hxs] using hrest
    · simpa [Trace.after] using hround

end Ends

/-- What a script keeps holds however it ends. -/
theorem Keeps.ends {m : Script δ β ε α} {r : δ → δ → Prop} (h : Keeps r m) (s : δ) :
    Ends m s (fun _ s' _ => r s s') fun _ s' _ => r s s' := by
  have hs := h s
  unfold Ends
  generalize m.run s = t at hs ⊢
  rcases t with ⟨_ | a, s', effects⟩ <;> exact hs

/-- A relation to the first state that every end has is kept. -/
theorem Keeps.of_ends {m : Script δ β ε α} {r : δ → δ → Prop}
    (h : ∀ s, Ends m s (fun _ s' _ => r s s') fun _ s' _ => r s s') : Keeps r m := by
  intro s
  have hs := h s
  unfold Ends at hs
  generalize m.run s = t at hs ⊢
  rcases t with ⟨_ | a, s', effects⟩ <;> exact hs

/-! ## What can be seen of a script -/

/-- Every state in which an item is emitted, and the last one, is `r`-related to the first; every
emitted item satisfies `p`. -/
def Shows (r : δ → δ → Prop) (p : β → Prop) (m : Script δ β ε α) : Prop :=
  ∀ s, r s (m.run s).state ∧
    ∀ item state, .emit item state ∈ (m.run s).effects → r s state ∧ p item

namespace Shows

variable {r : δ → δ → Prop} {p : β → Prop} {m : Script δ β ε α}

theorem state (h : Shows r p m) (s : δ) : r s (m.run s).state :=
  (h s).1

theorem items (h : Shows r p m) {s : δ} {b : β} (hb : b ∈ (m.run s).items) : p b := by
  obtain ⟨e, he, heb⟩ := List.mem_filterMap.1 hb
  cases e with
  | note event => cases heb
  | emit item fallback =>
    cases heb
    exact ((h s).2 _ _ he).2

/-- How a script ends of which all is known that can be seen. -/
theorem ends (h : Shows r p m) (s : δ) :
    Ends m s (fun _ s' xs => r s s' ∧ ∀ b ∈ xs, p b) fun _ s' xs => r s s' ∧ ∀ b ∈ xs, p b := by
  have hlast := h.state s
  have hitems := fun b => h.items (s := s) (b := b)
  unfold Ends
  generalize m.run s = t at hlast hitems ⊢
  rcases t with ⟨_ | a, s', effects⟩ <;> exact ⟨hlast, hitems⟩

theorem modify {f : δ → δ} (h : ∀ s, r s (f s)) :
    Shows r p (Script.modify f : Script δ β ε Unit) :=
  fun s => ⟨h s, by simp⟩

theorem lift {step : δ → Except ε α × δ × List Event} (h : ∀ s, r s (step s).2.1) :
    Shows r p (Script.lift step : Script δ β ε α) :=
  fun s => ⟨h s, by simp⟩

theorem mapError (h : Shows r p m) (f : ε → ε') : Shows r p (m.mapError f) :=
  h

theorem ite {c : Prop} [Decidable c] {m' : Script δ β ε α} (h : Shows r p m)
    (h' : Shows r p m') : Shows r p (if c then m else m') := by
  split
  · exact h
  · exact h'

section Reflexive

variable [Std.Refl r]

theorem answer (a : α) : Shows r p (pure a : Script δ β ε α) :=
  fun s => ⟨Std.Refl.refl s, by simp⟩

theorem fail (e : ε) : Shows r p (Script.fail e : Script δ β ε α) :=
  fun s => ⟨Std.Refl.refl s, by simp⟩

theorem read (f : δ → α) : Shows r p (Script.read f : Script δ β ε α) :=
  fun s => ⟨Std.Refl.refl s, by simp⟩

theorem note (f : δ → Event) : Shows r p (Script.note f : Script δ β ε Unit) :=
  fun s => ⟨Std.Refl.refl s, by simp⟩

theorem emit {f : δ → β} (h : ∀ s, p (f s)) : Shows r p (Script.emit f : Script δ β ε Unit) := by
  refine fun s => ⟨Std.Refl.refl s, fun item state he => ?_⟩
  obtain ⟨rfl, rfl⟩ : item = f s ∧ state = s := by simpa using he
  exact ⟨Std.Refl.refl state, h state⟩

end Reflexive

theorem bind [Trans r r r] {f : α → Script δ β ε α'} (hm : Shows r p m)
    (hf : ∀ a, Shows r p (f a)) : Shows r p (m >>= f) := by
  intro s
  have hs := hm s
  rcases hrun : m.run s with ⟨_ | a, s', effects⟩
  · rw [run_bind_error hrun]
    rwa [hrun] at hs
  · rw [hrun] at hs
    rw [run_bind_ok hrun]
    obtain ⟨hlast, hseen⟩ := hf a s'
    refine ⟨Trans.trans hs.1 hlast, fun item state he => ?_⟩
    rcases List.mem_append.1 he with he | he
    · exact hs.2 _ _ he
    · obtain ⟨hr, hp⟩ := hseen _ _ he
      exact ⟨Trans.trans hs.1 hr, hp⟩

theorem mono {r' : δ → δ → Prop} {p' : β → Prop} (h : Shows r p m)
    (hr : ∀ s s', r s s' → r' s s') (hp : ∀ b, p b → p' b) : Shows r' p' m :=
  fun s => ⟨hr _ _ (h s).1, fun _ _ he => ⟨hr _ _ ((h s).2 _ _ he).1, hp _ ((h s).2 _ _ he).2⟩⟩

end Shows

/-! ## Draining a list -/

section Drain

variable {feed : α → Script δ β Halt Unit}

theorem run_drain_nil (s : δ) :
    (drain feed).run (s, ([] : List α)) = ⟨.ok (), (s, []), []⟩ := by
  rw [drain, loop_eq, run_bind]
  rfl

/-- What feeding the first item of a list does, beside the rest of the list. -/
theorem run_feedNext_cons {a : α} {rest : List α} {s s' : δ} {result : Except Halt Unit}
    {effects : List (Effect δ β)} (h : (feed a).run s = ⟨result, s', effects⟩) :
    (feedNext feed).run (s, a :: rest) =
      ⟨result.map fun _ => none, (s', rest), effects.map (Effect.mapState (·, rest))⟩ := by
  have hfed : (beside (feed a)).run (s, rest) =
      ⟨result, (s', rest), effects.map (Effect.mapState (·, rest))⟩ := by
    simp only [beside, h, Trace.mapState]
  have htaken : (next? : Script (δ × List α) β Halt (Option α)).run (s, a :: rest) =
      ⟨.ok (some a), (s, rest), []⟩ := rfl
  rw [feedNext, run_bind_ok htaken, after_nil]
  dsimp only
  cases result with
  | error e => exact run_bind_error hfed
  | ok _ =>
    rw [run_bind_ok hfed]
    simp [Trace.after, Except.map]

/-- Draining a list feeds its first item and goes on with the others if that did not fail. -/
theorem run_drain_cons {a : α} {rest : List α} {s s' : δ} {effects : List (Effect δ β)}
    (h : (feed a).run s = ⟨.ok (), s', effects⟩) :
    (drain feed).run (s, a :: rest) =
      ((drain feed).run (s', rest)).after (effects.map (Effect.mapState (·, rest))) := by
  conv => lhs; rw [drain, loop_eq]
  rw [run_bind_ok (run_feedNext_cons h)]
  rfl

/-- Draining a list is over with the first item that cannot be fed. -/
theorem run_drain_cons_error {a : α} {rest : List α} {s s' : δ} {e : Halt}
    {effects : List (Effect δ β)} (h : (feed a).run s = ⟨.error e, s', effects⟩) :
    (drain feed).run (s, a :: rest) =
      ⟨.error e, (s', rest), effects.map (Effect.mapState (·, rest))⟩ := by
  rw [drain, loop_eq]
  exact run_bind_error (run_feedNext_cons h)

namespace Ends

variable {s : δ} {Q : Unit → δ × List α → List β → Prop} {E : Halt → δ × List α → List β → Prop}

theorem drain_nil (h : Q () (s, []) []) : Ends (drain feed) (s, []) Q E := by
  unfold Ends
  rw [run_drain_nil]
  exact h

end Ends

namespace Answers

variable {s : δ} {Q : Unit → δ × List α → List β → Prop}

theorem drain_cons {a : α} {rest : List α}
    (h : Answers (feed a) s fun _ s' xs =>
      Answers (drain feed) (s', rest) fun _ t ys => Q () t (xs ++ ys)) :
    Answers (drain feed) (s, a :: rest) Q := by
  obtain ⟨_, s', effects, hfeed, h'⟩ := h.run
  obtain ⟨_, t, effects', hdrain, hQ⟩ := h'.run
  unfold Answers Ends
  rw [run_drain_cons hfeed, hdrain]
  change Q () t ((effects.map (Effect.mapState (·, rest)) ++ effects').filterMap Effect.item?)
  rwa [List.filterMap_append, Trace.filterMap_mapState]

/-- Items that are all answered are all taken. -/
theorem drain_all (h : ∀ a s, Answers (feed a) s fun _ _ _ => True) (s : δ) (xs : List α) :
    Answers (drain feed) (s, xs) fun _ t _ => t.2 = [] := by
  induction xs generalizing s with
  | nil => exact .drain_nil rfl
  | cons a rest ih =>
    apply drain_cons
    apply (h a s).mono
    intro _ s' _ _
    exact ih s'

end Answers

end Drain

end Script

end BusDecode
