import BusDecode.Channel.Receiver

/-!
# Sources that serve the same

A relation of sources is `Alike` if reading cannot tell related ones apart.  A receiver whose
channel comes to an end is, to whoever reads from it, the list of the items before that end: those
in its buffer and those in the channel up to the first end marker (`Receiver.alike_serves`).
-/

set_option autoImplicit false

namespace BusDecode

/-! ## Reading alike -/

section Alike

variable {σ τ α : Type} [Source σ α] [Source τ α] {K : σ → τ → Prop}

/-- Related sources answer the same and stay related, whether an item is taken or looked at. -/
structure Source.Alike (K : σ → τ → Prop) : Prop where
  recv : ∀ s t, K s t →
    (Source.recv s).1 = (Source.recv t).1 ∧ K (Source.recv s).2 (Source.recv t).2
  peek : ∀ s t, K s t →
    (Source.peek s).1 = (Source.peek t).1 ∧ K (Source.peek s).2 (Source.peek t).2
  takeEvents : ∀ s t, K s t → K (Source.takeEvents s).2 (Source.takeEvents t).2

theorem Source.Alike.peek? (hK : Source.Alike K) {s : σ} {t : τ} (h : K s t) :
    (Source.peek? s).1 = (Source.peek? t).1 ∧ K (Source.peek? s).2 (Source.peek? t).2 := by
  have hpeek := hK.peek s t h
  unfold Source.peek?
  generalize Source.peek s = looked at hpeek ⊢
  generalize Source.peek t = looked' at hpeek ⊢
  obtain ⟨r, s'⟩ := looked
  obtain ⟨r', t'⟩ := looked'
  obtain ⟨rfl, hrel⟩ : r = r' ∧ K s' t' := hpeek
  cases r with
  | ok a => exact ⟨rfl, hrel⟩
  | error e => cases e <;> exact ⟨rfl, hrel⟩

/-- A source reads as itself. -/
theorem Source.alike_eq : Source.Alike (Eq : σ → σ → Prop) where
  recv _ _ h := ⟨congrArg (fun s => (Source.recv s).1) h, congrArg (fun s => (Source.recv s).2) h⟩
  peek _ _ h := ⟨congrArg (fun s => (Source.peek s).1) h, congrArg (fun s => (Source.peek s).2) h⟩
  takeEvents _ _ h := congrArg (fun s => (Source.takeEvents s).2) h

end Alike

/-! ## Channels that come to an end -/

namespace Channel

variable {α : Type}

/-- Nothing more than is in the channel can be taken from it: it holds an end marker, or its sender
is gone. -/
def Closes (c : Channel α) : Prop :=
  .endOfStream ∈ c.queue ∨ c.hasSender = false

/-- The channel delivers the items of a list and then comes to an end. -/
structure Delivers (c : Channel α) (xs : List α) : Prop where
  items : itemsBeforeEnd c.queue = xs
  closes : c.Closes

theorem itemsBeforeEnd_items (xs : List α) (rest : List (Message α)) :
    itemsBeforeEnd (xs.map .item ++ rest) = xs ++ itemsBeforeEnd rest := by
  induction xs with
  | nil => rfl
  | cons x xs ih => exact congrArg (x :: ·) ih

/-- An end marker hides whatever is behind it. -/
theorem delivers_marked (xs late : List α) : (ofItems xs (some late)).Delivers xs where
  items := (itemsBeforeEnd_items xs _).trans (List.append_nil xs)
  closes := .inl (List.mem_append_right _ List.mem_cons_self)

/-- A sender that is gone ends its channel as well. -/
theorem delivers_dropped (xs : List α) : (ofItems xs none).dropSender.Delivers xs where
  items := (itemsBeforeEnd_items xs _).trans (List.append_nil xs)
  closes := .inr rfl

end Channel

/-! ## Receivers -/

namespace Receiver

variable {α : Type} {r : Receiver α} {xs : List α}

/-- The items that a receiver has left to deliver. -/
def contents (r : Receiver α) : List α :=
  r.buffer ++ if r.ended then [] else Channel.itemsBeforeEnd r.channel.queue

/-- The receiver delivers the items of a list and then the end. -/
structure Serves (r : Receiver α) (xs : List α) : Prop where
  contents : r.contents = xs
  closes : r.ended = true ∨ r.channel.Closes

theorem serves_channel {c : Channel α} (h : c.Delivers xs) : Serves { channel := c } xs :=
  ⟨h.items, .inr h.closes⟩

/-- What is taken from a channel that is not known to have ended is the next item, or the end. -/
theorem Serves.pull (h : r.Serves xs) (hbuffer : r.buffer = []) (hended : r.ended = false) :
    r.pull.1 = (Source.recv xs).1 ∧ r.pull.2.Serves (Source.recv xs).2 := by
  obtain ⟨⟨queue, hasSender, hasReceiver⟩, buffer, ended, journal⟩ := r
  obtain rfl : buffer = [] := hbuffer
  obtain rfl : ended = false := hended
  obtain ⟨rfl, hcloses⟩ := h
  have hcloses : .endOfStream ∈ queue ∨ hasSender = false :=
    hcloses.resolve_left Bool.false_ne_true
  cases queue with
  | nil =>
    obtain rfl : hasSender = false := hcloses.resolve_left List.not_mem_nil
    exact ⟨rfl, rfl, .inr (.inr rfl)⟩
  | cons message rest =>
    cases message with
    | item a =>
      have hrest : .endOfStream ∈ rest ∨ hasSender = false := by simpa using hcloses
      exact ⟨rfl, rfl, .inr hrest⟩
    | endOfStream => exact ⟨rfl, rfl, .inl rfl⟩

theorem Serves.recv (h : r.Serves xs) :
    (Source.recv r).1 = (Source.recv xs).1 ∧ (Source.recv r).2.Serves (Source.recv xs).2 := by
  obtain ⟨channel, _ | ⟨a, rest⟩, ended, journal⟩ := r
  · cases ended with
    | true =>
      obtain ⟨rfl, hcloses⟩ := h
      exact ⟨rfl, rfl, hcloses⟩
    | false => exact h.pull rfl rfl
  · obtain ⟨rfl, hcloses⟩ := h
    exact ⟨rfl, rfl, hcloses⟩

/-- Looking at the next item moves it from the channel to the buffer, where it still is the next. -/
theorem Serves.peek (h : r.Serves xs) :
    (Source.peek r).1 = (Source.peek xs).1 ∧ (Source.peek r).2.Serves (Source.peek xs).2 := by
  obtain ⟨channel, _ | ⟨a, rest⟩, ended, journal⟩ := r
  · cases ended with
    | true =>
      obtain ⟨rfl, hcloses⟩ := h
      exact ⟨rfl, rfl, hcloses⟩
    | false =>
      obtain ⟨hresult, hserves⟩ := h.pull rfl rfl
      have hbuffer := Receiver.buffer_pull ⟨channel, [], false, journal⟩
      change (Receiver.peek _).1 = _ ∧ (Receiver.peek _).2.Serves _
      unfold Receiver.peek
      generalize Receiver.pull ⟨channel, [], false, journal⟩ = pulled at hresult hserves hbuffer
      obtain ⟨result, ⟨channel', buffer, ended, journal'⟩⟩ := pulled
      obtain rfl : buffer = [] := hbuffer
      cases xs with
      | nil =>
        obtain rfl : result = .error .endOfStream := hresult
        exact ⟨rfl, hserves⟩
      | cons x xs =>
        obtain rfl : result = .ok x := hresult
        exact ⟨rfl, congrArg (x :: ·) hserves.contents, hserves.closes⟩
  · obtain ⟨rfl, hcloses⟩ := h
    exact ⟨rfl, rfl, hcloses⟩

/-- **A receiver reads as the list of what it has left to deliver.** -/
theorem alike_serves : Source.Alike (Serves : Receiver α → List α → Prop) where
  recv _ _ h := h.recv
  peek _ _ h := h.peek
  takeEvents _ _ h := ⟨h.contents, h.closes⟩

end Receiver

end BusDecode
