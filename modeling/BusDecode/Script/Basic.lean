import BusDecode.Journal

/-!
# Scripts

A script is a computation over a state that reports events and emits items on the way.  It does
not know who takes the items: its `Trace` lists everything it did, and next to each emitted item
stands the state to fall back to should that item be refused.  So what a decoder does is said once,
and what a refusing sink makes of it follows for every decoder alike (`BusDecode.Script.Play`).
-/

set_option autoImplicit false

namespace BusDecode

/-- Something a script did that can be seen from outside. -/
inductive Effect (δ β : Type) where
  /-- an event for the journal -/
  | note (event : Event)
  /-- an item handed on; `fallback` is the state at that moment -/
  | emit (item : β) (fallback : δ)
  deriving Repr

namespace Effect

/-- The same effect seen from another kind of state. -/
def mapState {δ γ β : Type} (f : δ → γ) : Effect δ β → Effect γ β
  | note event => note event
  | emit item fallback => emit item (f fallback)

/-- The same effect with another kind of item. -/
def mapItem {δ β β' : Type} (f : β → β') : Effect δ β → Effect δ β'
  | note event => note event
  | emit item fallback => emit (f item) fallback

/-- The emitted item, if the effect is one. -/
def item? {δ β : Type} : Effect δ β → Option β
  | note _ => none
  | emit item _ => some item

/-- The event, if the effect is one. -/
def event? {δ β : Type} : Effect δ β → Option Event
  | note event => some event
  | emit _ _ => none

/-- Whether the effect is an event. -/
def isNote {δ β : Type} : Effect δ β → Bool
  | note _ => true
  | emit _ _ => false

end Effect

/-- Everything a run of a script did: how it ended, in which state, and its effects in order. -/
structure Trace (δ β ε α : Type) where
  result : Except ε α
  state : δ
  effects : List (Effect δ β) := []

namespace Trace

variable {δ γ β β' ε ε' α : Type}

/-- The emitted items in order. -/
def items (t : Trace δ β ε α) : List β :=
  t.effects.filterMap Effect.item?

/-- The reported events in order. -/
def events (t : Trace δ β ε α) : List Event :=
  t.effects.filterMap Effect.event?

/-- The same run seen from another kind of state. -/
def mapState (f : δ → γ) (t : Trace δ β ε α) : Trace γ β ε α :=
  ⟨t.result, f t.state, t.effects.map (Effect.mapState f)⟩

/-- The same run with its items turned into others. -/
def mapItem (f : β → β') (t : Trace δ β ε α) : Trace δ β' ε α :=
  ⟨t.result, t.state, t.effects.map (Effect.mapItem f)⟩

/-- The same run after other effects. -/
def after (before : List (Effect δ β)) (t : Trace δ β ε α) : Trace δ β ε α :=
  { t with effects := before ++ t.effects }

end Trace

/-- A computation over a state `δ` that emits items `β`, fails with `ε` or answers `α`. -/
@[ext] structure Script (δ β ε α : Type) where
  /-- the run from a given state -/
  run : δ → Trace δ β ε α

namespace Script

variable {δ γ β ε ε' α α' : Type}

/-- Goes on with the answer and the state of the first script, if it did not fail. -/
def andThen (m : Script δ β ε α) (f : α → Script δ β ε α') : Script δ β ε α' :=
  ⟨fun s =>
    match m.run s with
    | ⟨.ok a, s', effects⟩ => ((f a).run s').after effects
    | ⟨.error e, s', effects⟩ => ⟨.error e, s', effects⟩⟩

instance : Monad (Script δ β ε) where
  pure a := ⟨fun s => ⟨.ok a, s, []⟩⟩
  bind := andThen

/-- Fails; state and effects up to here stay. -/
def fail (e : ε) : Script δ β ε α :=
  ⟨fun s => ⟨.error e, s, []⟩⟩

/-- Answers with something read off the state. -/
def read (f : δ → α) : Script δ β ε α :=
  ⟨fun s => ⟨.ok (f s), s, []⟩⟩

/-- Changes the state. -/
def modify (f : δ → δ) : Script δ β ε Unit :=
  ⟨fun s => ⟨.ok (), f s, []⟩⟩

/-- Reports an event that depends on the state. -/
def note (f : δ → Event) : Script δ β ε Unit :=
  ⟨fun s => ⟨.ok (), s, [.note (f s)]⟩⟩

/-- Emits an item that depends on the state. -/
def emit (f : δ → β) : Script δ β ε Unit :=
  ⟨fun s => ⟨.ok (), s, [.emit (f s) s]⟩⟩

/-- Emits items in order. -/
def emitAll (items : List β) : Script δ β ε Unit :=
  ⟨fun s => ⟨.ok (), s, items.map fun item => .emit item s⟩⟩

/-- Runs a script under a condition. -/
def onlyIf (c : Prop) [Decidable c] (m : Script δ β ε Unit) : Script δ β ε Unit :=
  if c then m else pure ()

/-- Runs a step that emits nothing; the events it tells are reported after it. -/
def lift (step : δ → Except ε α × δ × List Event) : Script δ β ε α :=
  ⟨fun s =>
    let (result, state, events) := step s
    ⟨result, state, events.map .note⟩⟩

/-- Renames failures. -/
def mapError (f : ε → ε') (m : Script δ β ε α) : Script δ β ε' α :=
  ⟨fun s => ⟨(m.run s).result.mapError f, (m.run s).state, (m.run s).effects⟩⟩

/-- A failure becomes an answer. -/
def attempt (m : Script δ β ε α) : Script δ β ε' (Except ε α) :=
  ⟨fun s => ⟨.ok (m.run s).result, (m.run s).state, (m.run s).effects⟩⟩

/-- Runs a script over one state inside another: `enter` sets it up, `leave` takes it back. -/
def focus (enter : δ → γ) (leave : γ → δ) (m : Script γ β ε α) : Script δ β ε α :=
  ⟨fun s => (m.run (enter s)).mapState leave⟩

/-- Runs a script without handing on its items.  If it answers `true` they follow in order at the
end, in the state reached by then; otherwise they are dropped.  Events stay where they are. -/
def withhold (m : Script δ β ε Bool) : Script δ β ε Bool :=
  ⟨fun s =>
    let t := m.run s
    let notes := t.effects.filter Effect.isNote
    match t.result with
    | .ok true => { t with effects := notes ++ t.items.map fun item => .emit item t.state }
    | _ => { t with effects := notes }⟩

/-! ## What each building block does -/

@[simp] theorem run_pure (a : α) (s : δ) :
    (pure a : Script δ β ε α).run s = ⟨.ok a, s, []⟩ := rfl

theorem run_bind (m : Script δ β ε α) (f : α → Script δ β ε α') (s : δ) :
    (m >>= f).run s =
      match m.run s with
      | ⟨.ok a, s', effects⟩ => ((f a).run s').after effects
      | ⟨.error e, s', effects⟩ => ⟨.error e, s', effects⟩ := rfl

theorem run_bind_ok {m : Script δ β ε α} {f : α → Script δ β ε α'} {s s' : δ} {a : α}
    {effects : List (Effect δ β)} (h : m.run s = ⟨.ok a, s', effects⟩) :
    (m >>= f).run s = ((f a).run s').after effects := by
  rw [run_bind, h]

theorem run_bind_error {m : Script δ β ε α} {f : α → Script δ β ε α'} {s s' : δ} {e : ε}
    {effects : List (Effect δ β)} (h : m.run s = ⟨.error e, s', effects⟩) :
    (m >>= f).run s = ⟨.error e, s', effects⟩ := by
  rw [run_bind, h]

@[simp] theorem run_fail (e : ε) (s : δ) :
    (fail e : Script δ β ε α).run s = ⟨.error e, s, []⟩ := rfl

@[simp] theorem run_read (f : δ → α) (s : δ) :
    (read f : Script δ β ε α).run s = ⟨.ok (f s), s, []⟩ := rfl

@[simp] theorem run_modify (f : δ → δ) (s : δ) :
    (modify f : Script δ β ε Unit).run s = ⟨.ok (), f s, []⟩ := rfl

@[simp] theorem run_note (f : δ → Event) (s : δ) :
    (note f : Script δ β ε Unit).run s = ⟨.ok (), s, [.note (f s)]⟩ := rfl

@[simp] theorem run_emit (f : δ → β) (s : δ) :
    (emit f : Script δ β ε Unit).run s = ⟨.ok (), s, [.emit (f s) s]⟩ := rfl

@[simp] theorem run_lift (step : δ → Except ε α × δ × List Event) (s : δ) :
    (lift step : Script δ β ε α).run s = ⟨(step s).1, (step s).2.1, (step s).2.2.map .note⟩ := rfl

@[simp] theorem after_nil (t : Trace δ β ε α) : t.after [] = t := rfl

@[simp] theorem after_after (before between : List (Effect δ β)) (t : Trace δ β ε α) :
    (t.after between).after before = t.after (before ++ between) := by
  simp [Trace.after]

@[simp] theorem state_after (before : List (Effect δ β)) (t : Trace δ β ε α) :
    (t.after before).state = t.state := rfl

@[simp] theorem result_after (before : List (Effect δ β)) (t : Trace δ β ε α) :
    (t.after before).result = t.result := rfl

@[simp] theorem effects_after (before : List (Effect δ β)) (t : Trace δ β ε α) :
    (t.after before).effects = before ++ t.effects := rfl

instance : LawfulMonad (Script δ β ε) := LawfulMonad.mk' _
  (by
    intro α m
    ext1
    funext s
    change (m >>= fun a => pure (id a)).run s = m.run s
    rw [run_bind]
    rcases m.run s with ⟨_ | _, _, _⟩ <;> simp [Trace.after])
  (by
    intro α α' a f
    ext1
    funext s
    simp [run_bind])
  (by
    intro α α' α'' m f g
    ext1
    funext s
    simp only [run_bind]
    rcases m.run s with ⟨_ | a, s', effects⟩
    · rfl
    · dsimp only
      rcases h : (f a).run s' with ⟨_ | a', s'', effects'⟩ <;> simp [Trace.after])

end Script

end BusDecode
