import BusDecode.Proofs.Script

/-!
# What the items of a run tell of its state

Someone who watches a run can look at its state whenever an item is handed on and at the end
(`Trace.Throughout`).  A script `Tells` what becomes of its state if, whenever one looks, the items
so far relate the first state to the one reached; in between the state may be ahead of them.  There
is one lemma for each building block, as for `Ends` and `Shows`; a part that first changes the state
and then hands on the item that says so is taken as a whole (`Tells.of_last`).
-/

set_option autoImplicit false

namespace BusDecode

namespace Trace

variable {δ β ε ε' α α' : Type}

/-- At every emitted item, and at the end, the items up to there and the state satisfy `P`. -/
structure Throughout (P : List β → δ → Prop) (t : Trace δ β ε α) : Prop where
  last : P t.items t.state
  seen : ∀ before item state after, t.effects = before ++ .emit item state :: after →
    P (before.filterMap Effect.item? ++ [item]) state

theorem not_emit_mem_notes {told : List Event} {item : β} {state : δ}
    {before after : List (Effect δ β)} :
    told.map Effect.note ≠ before ++ .emit item state :: after := by
  intro h
  have hmem : Effect.emit item state ∈ told.map (Effect.note : Event → Effect δ β) := by
    rw [h]
    exact List.mem_append_right _ List.mem_cons_self
  obtain ⟨event, _, hevent⟩ := List.mem_map.1 hmem
  cases hevent

namespace Throughout

variable {P Q : List β → δ → Prop} {r : Except ε α} {s : δ} {told : List Event}

theorem mono {t : Trace δ β ε α} (h : t.Throughout P) (hPQ : ∀ xs s, P xs s → Q xs s) :
    t.Throughout Q :=
  ⟨hPQ _ _ h.last, fun before item state later he => hPQ _ _ (h.seen before item state later he)⟩

/-- A run that hands on nothing. -/
theorem notes (told : List Event) (h : P [] s) :
    Throughout P (⟨r, s, told.map .note⟩ : Trace δ β ε α) where
  last := by
    rw [items_mk, filterMap_noted]
    exact h
  seen _ _ _ _ heffects := absurd heffects not_emit_mem_notes

/-- One run behind another one. -/
theorem after {t : Trace δ β ε' α'} {effects : List (Effect δ β)}
    (h : Throughout P (⟨r, s, effects⟩ : Trace δ β ε α))
    (ht : t.Throughout fun ys => P (effects.filterMap Effect.item? ++ ys)) :
    (t.after effects).Throughout P where
  last := by
    rw [items_after]
    exact ht.last
  seen before item state later heffects := by
    rcases List.append_eq_append_iff.1 heffects with ⟨mid, hbefore, hrest⟩ | ⟨mid, hfirst, hrest⟩
    · rw [hbefore, List.filterMap_append, List.append_assoc]
      exact ht.seen mid item state later hrest
    · cases mid with
      | nil =>
        rw [List.append_nil] at hfirst
        rw [← hfirst]
        exact ht.seen [] item state later hrest.symm
      | cons e mid =>
        obtain ⟨rfl, _⟩ := List.cons.inj hrest
        exact h.seen before item state mid hfirst

/-- A run that hands on one item, as the last thing it does. -/
theorem one {item : β} (h : P [item] s) :
    Throughout P (⟨r, s, told.map .note ++ [.emit item s]⟩ : Trace δ β ε α) := by
  have hitems : (told.map .note ++ [.emit item s] : List (Effect δ β)).filterMap Effect.item? =
      [item] := by
    rw [List.filterMap_append, filterMap_noted]
    rfl
  refine ⟨?_, ?_⟩
  · rw [items_mk, hitems]
    exact h
  · intro before item' state later heffects
    -- the item is the last effect, and all before it are notes
    rcases List.eq_nil_or_concat later with rfl | ⟨later, e, rfl⟩
    · obtain ⟨hbefore, hlast⟩ := List.append_inj' heffects rfl
      cases hlast
      rw [← hbefore, filterMap_noted]
      exact h
    · have hsplit : told.map .note ++ [.emit item s] =
          (before ++ .emit item' state :: later) ++ [e] := by simpa using heffects
      exact absurd (List.append_inj' hsplit rfl).1 not_emit_mem_notes

/-- The same run seen from another kind of state. -/
theorem mapState {γ : Type} {f : δ → γ} {P : List β → γ → Prop} {t : Trace δ β ε α}
    (h : t.Throughout fun xs s => P xs (f s)) : (t.mapState f).Throughout P where
  last := by
    rw [items_mapState]
    exact h.last
  seen before item state later heffects := by
    obtain ⟨before', later', heffects', rfl, hlater⟩ := List.map_eq_append_iff.1 heffects
    obtain ⟨e, later'', rfl, he, rfl⟩ := List.map_eq_cons_iff.1 hlater
    cases e with
    | note event => cases he
    | emit item' state' =>
      cases he
      have hitems : Effect.item? ∘ Effect.mapState f = (Effect.item? : Effect δ β → _) :=
        funext (item?_mapState f)
      rw [List.filterMap_map, hitems]
      exact h.seen before' item state' later'' heffects'

end Throughout

end Trace

namespace Script

/-- Relations between two states, through the items handed on between them, that can be composed. -/
class Chained {δ β : Type} (R : δ → List β → δ → Prop) : Prop where
  refl : ∀ s, R s [] s
  trans : ∀ {s t u xs ys}, R s xs t → R t ys u → R s (xs ++ ys) u

/-- The items so far relate every state in which one is emitted, and the last one, to the first. -/
def Tells {δ β ε α : Type} (R : δ → List β → δ → Prop) (m : Script δ β ε α) : Prop :=
  ∀ s, (m.run s).Throughout (R s)

namespace Tells

variable {δ β ε α α' : Type} {R : δ → List β → δ → Prop} {m : Script δ β ε α}

theorem modify {f : δ → δ} (h : ∀ s, R s [] (f s)) :
    Tells R (Script.modify f : Script δ β ε Unit) := by
  intro s
  exact .notes [] (h s)

theorem lift {step : δ → Except ε α × δ × List Event} (h : ∀ s, R s [] (step s).2.1) :
    Tells R (Script.lift step : Script δ β ε α) := by
  intro s
  exact .notes _ (h s)

/-- A part that changes the state as it likes before the one item that it ends with. -/
theorem of_last (h : ∀ s, ∃ r s' item, ∃ told : List Event,
    m.run s = ⟨r, s', told.map .note ++ [.emit item s']⟩ ∧ R s [item] s') : Tells R m := by
  intro s
  obtain ⟨r, s', item, told, hrun, hR⟩ := h s
  rw [hrun]
  exact .one hR

theorem emit {f : δ → β} (h : ∀ s, R s [f s] s) : Tells R (Script.emit f : Script δ β ε Unit) :=
  of_last fun s => ⟨.ok (), s, f s, [], rfl, h s⟩

theorem ite {c : Prop} [Decidable c] {m' : Script δ β ε α} (h : Tells R m) (h' : Tells R m') :
    Tells R (if c then m else m') := by
  split
  · exact h
  · exact h'

/-- A script beside a source tells of its own part of the state. -/
theorem beside {σ : Type} (h : Tells R m) :
    Tells (fun (s : δ × σ) xs t => R s.1 xs t.1) (Script.beside m) := by
  intro s
  exact .mapState (f := (·, s.2)) (h s.1)

variable [Chained R]

theorem answer (a : α) : Tells R (pure a : Script δ β ε α) := by
  intro s
  exact .notes [] (Chained.refl s)

theorem read (f : δ → α) : Tells R (Script.read f : Script δ β ε α) := by
  intro s
  exact .notes [] (Chained.refl s)

theorem note (f : δ → Event) : Tells R (Script.note f : Script δ β ε Unit) := by
  intro s
  exact .notes [f s] (Chained.refl s)

/-- What is told first stays told. -/
theorem bind {f : α → Script δ β ε α'} (hm : Tells R m) (hf : ∀ a, Tells R (f a)) :
    Tells R (m >>= f) := by
  intro s
  have hs := hm s
  rcases hrun : m.run s with ⟨_ | a, s', effects⟩
  · rw [run_bind_error hrun]
    rw [hrun] at hs
    exact ⟨hs.last, hs.seen⟩
  · rw [run_bind_ok hrun]
    rw [hrun] at hs
    exact hs.after ((hf a s').mono fun _ _ => Chained.trans hs.last)

theorem onlyIf {c : Prop} [Decidable c] {m : Script δ β ε Unit} (h : Tells R m) :
    Tells R (Script.onlyIf c m) :=
  ite h (answer ())

/-- Every round of a loop goes on where the one before it has ended. -/
theorem loop {m : Script δ β ε (Option α)} (hm : Tells R m) (size : δ → Nat)
    (h : Descends size m) : Tells R (Script.loop m size h) := by
  intro s
  induction hn : size s using Nat.strongRecOn generalizing s with
  | ind n ih =>
    subst hn
    have hs := hm s
    rcases hrun : m.run s with ⟨_ | _ | a, s', effects⟩
    · rw [loop_eq, run_bind_error hrun]
      rw [hrun] at hs
      exact ⟨hs.last, hs.seen⟩
    · have hless : size s' < size s := by
        have := h s (by rw [hrun])
        rwa [hrun] at this
      rw [loop_eq, run_bind_ok hrun]
      rw [hrun] at hs
      exact hs.after ((ih _ hless s' rfl).mono fun _ _ => Chained.trans hs.last)
    · rw [loop_eq, run_bind_ok hrun]
      rw [hrun] at hs
      exact hs.after (.notes [] (by simpa using hs.last))

/-- Feeding a whole source tells what feeding its items tells. -/
theorem drain {σ : Type} [Source σ α] {R : δ → List β → δ → Prop} [Chained R]
    {feed : α → Script δ β Halt Unit} (h : ∀ a, Tells R (feed a)) :
    Tells (fun (s : δ × σ) xs t => R s.1 xs t.1) (Script.drain feed) := by
  have : Chained fun (s : δ × σ) (xs : List β) t => R s.1 xs t.1 :=
    ⟨fun s => Chained.refl s.1, Chained.trans⟩
  refine loop (bind (lift fun s => Chained.refl s.1) fun item => ?_) _ _
  cases item with
  | none => exact answer _
  | some a => exact bind (beside (h a)) fun _ => answer _

end Tells

end Script

end BusDecode
