import BusDecode.Channel.Basic
import BusDecode.Stream.Source

/-!
# Receivers

A receiver reads a channel as a source.  Items that were looked at or pushed back wait in a buffer
in front of the channel; the end marker, once met, is remembered, so nothing behind it is ever
delivered.  An empty channel whose sender is still there has no answer yet: the receiver starves.
-/

set_option autoImplicit false

namespace BusDecode

/-- The reading end of a channel, with everything that outlives a single read. -/
structure Receiver (α : Type) where
  channel : Channel α := {}
  /-- items to deliver before anything from the channel -/
  buffer : List α := []
  /-- the end marker has been met -/
  ended : Bool := false
  /-- events not yet handed on, oldest first -/
  journal : List Event := []
  deriving Repr

namespace Receiver

variable {α : Type}

/-- Takes the next item from the channel itself. -/
def pull (r : Receiver α) : Except Halt α × Receiver α :=
  match r.channel.queue with
  | .item a :: rest => (.ok a, { r with channel.queue := rest })
  | .endOfStream :: rest =>
    (.error .endOfStream, { r with
      channel.queue := rest
      ended := true
      journal := r.journal ++ [⟨.debug, "Receiver - EndOfStream received"⟩] })
  | [] =>
    if r.channel.hasSender then (.error .starved, r) else
    (.error .endOfStream, { r with
      journal := r.journal ++
        [⟨.debug, "Receiver - channel disconnected, returning Shutdown"⟩] })

/-- Takes the next item: from the buffer, or from the channel unless it has ended. -/
def recv (r : Receiver α) : Except Halt α × Receiver α :=
  match r.buffer with
  | a :: rest => (.ok a, { r with buffer := rest })
  | [] => if r.ended then (.error .endOfStream, r) else r.pull

/-- Looks at the next item, moving it from the channel to the buffer if need be. -/
def peek (r : Receiver α) : Except Halt α × Receiver α :=
  match r.buffer with
  | a :: _ => (.ok a, r)
  | [] =>
    if r.ended then (.error .endOfStream, r) else
    match r.pull with
    | (.ok a, r) => (.ok a, { r with buffer := [a] })
    | (.error e, r) => (.error e, r)

/-- Makes an item the next one; this works even after the end. -/
def putBack (a : α) (r : Receiver α) : Receiver α :=
  { r with buffer := a :: r.buffer }

/-- Whether an item waits in the buffer. -/
def hasBuffered (r : Receiver α) : Bool :=
  !r.buffer.isEmpty

/-- Whether a read would find nothing yet although more may come. -/
def isDry (r : Receiver α) : Bool :=
  r.buffer.isEmpty && !r.ended && r.channel.queue.isEmpty && r.channel.hasSender

/-- Items in the buffer and messages in the channel. -/
def size (r : Receiver α) : Nat :=
  r.buffer.length + r.channel.queue.length

theorem size_pull_le (r : Receiver α) : r.pull.2.size ≤ r.size := by
  unfold pull size
  split
  · simp_all
  · simp_all
  · split <;> simp

theorem buffer_pull (r : Receiver α) : r.pull.2.buffer = r.buffer := by
  unfold pull
  split
  · rfl
  · rfl
  · split <;> rfl

theorem size_pull_lt {r : Receiver α} {a : α} (h : r.pull.1 = .ok a) : r.pull.2.size < r.size := by
  unfold pull size at *
  split at h
  · simp_all
  · simp at h
  · split at h <;> simp at h

theorem size_recv_le (r : Receiver α) : r.recv.2.size ≤ r.size := by
  unfold recv
  split
  · simp_all [size]
  · split
    · exact Nat.le_refl _
    · exact r.size_pull_le

theorem size_recv_lt {r : Receiver α} {a : α} (h : r.recv.1 = .ok a) : r.recv.2.size < r.size := by
  unfold recv at *
  split at h
  · simp_all [size]
  · split at h
    · simp at h
    · rename_i hended
      simp only [hended]
      exact size_pull_lt h

theorem size_peek_le (r : Receiver α) : r.peek.2.size ≤ r.size := by
  unfold peek
  split
  · exact Nat.le_refl _
  · rename_i hbuffer
    split
    · exact Nat.le_refl _
    · split
      · rename_i a r' hp
        have hlt := size_pull_lt (r := r) (a := a) (by rw [hp])
        have hb := r.buffer_pull
        rw [hp] at hlt hb
        simp_all [size]
        omega
      · rename_i e r' hp
        have hle := r.size_pull_le
        rwa [hp] at hle

/-- Reading a channel. -/
instance source : Source (Receiver α) α where
  recv := recv
  peek := peek
  putBack := putBack
  takeEvents r := (r.journal, { r with journal := [] })
  size := size
  size_recv_lt := size_recv_lt
  size_recv_le := size_recv_le
  size_peek_le := size_peek_le
  size_takeEvents_le _ := Nat.le_refl _

end Receiver

end BusDecode
