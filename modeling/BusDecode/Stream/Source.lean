import BusDecode.Halt
import BusDecode.Journal

/-!
# Sources

A source is anything that items can be taken from one by one, with a look at the next item and
the possibility to push one back.  The class carries a bound on how many items are left, with the
laws that make reading loops end: a successful `recv` lowers it, and nothing a reader does raises
it.  A list is a source; so is a source that fails after a number of items (`Limited`).
-/

set_option autoImplicit false

namespace BusDecode

/-- A stream of items that can be read, looked ahead by one, and pushed back to. -/
class Source (σ : Type) (α : outParam Type) where
  /-- takes the next item -/
  recv : σ → Except Halt α × σ
  /-- the next item, which stays -/
  peek : σ → Except Halt α × σ
  /-- makes an item the next one -/
  putBack : α → σ → σ
  /-- events reported since they were taken last -/
  takeEvents : σ → List Event × σ
  /-- upper bound on the number of items that can still be taken -/
  size : σ → Nat
  size_recv_lt : ∀ {s : σ} {a : α}, (recv s).1 = .ok a → size (recv s).2 < size s
  size_recv_le : ∀ s : σ, size (recv s).2 ≤ size s
  size_peek_le : ∀ s : σ, size (peek s).2 ≤ size s
  size_takeEvents_le : ∀ s : σ, size (takeEvents s).2 ≤ size s

namespace Source

/-! ## Lists -/

/-- A list hands out its items in order and then ends. -/
instance ofList {α : Type} : Source (List α) α where
  recv
    | [] => (.error .endOfStream, [])
    | a :: rest => (.ok a, rest)
  peek
    | [] => (.error .endOfStream, [])
    | a :: rest => (.ok a, a :: rest)
  putBack a rest := a :: rest
  takeEvents s := ([], s)
  size := List.length
  size_recv_lt {s _} h := by cases s <;> simp_all
  size_recv_le s := by cases s <;> simp
  size_peek_le s := by cases s <;> simp
  size_takeEvents_le _ := Nat.le_refl _

@[simp] theorem recv_nil {α : Type} :
    recv ([] : List α) = (.error .endOfStream, []) := rfl

@[simp] theorem recv_cons {α : Type} (a : α) (rest : List α) :
    recv (a :: rest) = (.ok a, rest) := rfl

@[simp] theorem peek_nil {α : Type} :
    peek ([] : List α) = (.error .endOfStream, []) := rfl

@[simp] theorem peek_cons {α : Type} (a : α) (rest : List α) :
    peek (a :: rest) = (.ok a, a :: rest) := rfl

@[simp] theorem takeEvents_list {α : Type} (s : List α) : takeEvents s = ([], s) := rfl

@[simp] theorem size_list {α : Type} (s : List α) : size s = s.length := rfl

/-! ## Looking for the end -/

/-- The next item, or nothing at the end of the stream; other halts are passed on. -/
def peek? {σ α : Type} [Source σ α] (s : σ) : Except Halt (Option α) × σ :=
  match peek s with
  | (.ok a, s) => (.ok (some a), s)
  | (.error .endOfStream, s) => (.ok none, s)
  | (.error e, s) => (.error e, s)

/-- The next item is taken, or nothing at the end of the stream; other halts are passed on. -/
def recv? {σ α : Type} [Source σ α] (s : σ) : Except Halt (Option α) × σ :=
  match recv s with
  | (.ok a, s) => (.ok (some a), s)
  | (.error .endOfStream, s) => (.ok none, s)
  | (.error e, s) => (.error e, s)

theorem peek?_snd {σ α : Type} [Source σ α] (s : σ) : (peek? s).2 = (peek s).2 := by
  unfold peek?
  split <;> simp_all

theorem size_peek?_le {σ α : Type} [Source σ α] (s : σ) : size (peek? s).2 ≤ size s := by
  rw [peek?_snd]
  exact size_peek_le s

theorem size_recv?_lt {σ α : Type} [Source σ α] {s : σ} {a : α}
    (h : (recv? s).1 = .ok (some a)) : size (recv? s).2 < size s := by
  unfold recv? at h ⊢
  split at h
  · rename_i b s' hr
    have := size_recv_lt (s := s) (a := b) (by rw [hr])
    simpa [hr] using this
  · simp at h
  · simp at h

end Source

/-! ## Limits -/

/-- A stream that serves a number of items and refuses from then on; `none` is no limit. -/
structure Limited (σ : Type) where
  inner : σ
  refusal : Halt
  allowance : Option Nat := none
  deriving Repr

namespace Limited

/-- One item less to go. -/
def spend {σ : Type} (l : Limited σ) (inner : σ) : Limited σ :=
  { l with inner, allowance := l.allowance.map (· - 1) }

/-- The refusal comes before the end of the stream: it is decided without asking the inner one. -/
instance source {σ α : Type} [Source σ α] : Source (Limited σ) α where
  recv l :=
    if l.allowance = some 0 then (.error l.refusal, l) else
    match Source.recv l.inner with
    | (.ok a, inner) => (.ok a, l.spend inner)
    | (.error e, inner) => (.error e, { l with inner })
  peek l :=
    if l.allowance = some 0 then (.error l.refusal, l) else
    match Source.peek l.inner with
    | (.ok a, inner) => (.ok a, { l with inner })
    | (.error e, inner) => (.error e, { l with inner })
  putBack a l := { l with inner := Source.putBack a l.inner }
  takeEvents l :=
    let (events, inner) := Source.takeEvents l.inner
    (events, { l with inner })
  size l := Source.size l.inner
  size_recv_lt {l a} h := by
    split at h
    · simp at h
    · rename_i hz
      rw [if_neg hz]
      split at h
      · rename_i b inner hr
        have := Source.size_recv_lt (s := l.inner) (a := b) (by rw [hr])
        simpa [hr, spend] using this
      · simp at h
  size_recv_le l := by
    have := Source.size_recv_le l.inner
    split
    · exact Nat.le_refl _
    · split <;> simp_all [spend]
  size_peek_le l := by
    have := Source.size_peek_le l.inner
    split
    · exact Nat.le_refl _
    · split <;> simp_all
  size_takeEvents_le l := Source.size_takeEvents_le l.inner

end Limited

end BusDecode
