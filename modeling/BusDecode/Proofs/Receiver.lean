import BusDecode.Proofs.Source
import Mathlib.Data.List.Perm.Basic

/-!
# Receivers and lists, call by call

Whatever a reader asks of a receiver whose sender is gone, it is answered as by the list of the
items up to the end of the channel (`performAll_receiver`): items taken, looked at and given back in
any order, and the receiver given up and taken over by another one at any moment.  So every item
that was there or was given back is delivered once or still to be had, in order unless giving back
changed it, and nothing behind an end marker comes out.
-/

set_option autoImplicit false

namespace BusDecode

namespace Source

variable {σ τ α : Type}

/-! ## Calls -/

/-- Something that is done to a source from outside. -/
inductive Call (α : Type) where
  | recv
  | peek
  | putBack (item : α)
  /-- the reader goes away and another one takes its place -/
  | renew
  deriving DecidableEq, Repr

/-- What a call answers, if it answers anything. -/
abbrev Answer (α : Type) : Type :=
  Option (Except Halt α)

namespace Call

/-- The item that a call adds to a source. -/
def given? : Call α → Option α
  | putBack item => some item
  | _ => none

/-- The item that a call has taken, by its answer. -/
def taken? : Call α × Answer α → Option α
  | (recv, some (.ok item)) => some item
  | _ => none

end Call

/-- The items that calls gave back. -/
def given (calls : List (Call α)) : List α :=
  calls.filterMap Call.given?

/-- The items that calls took, by their answers. -/
def taken (calls : List (Call α)) (answers : List (Answer α)) : List α :=
  (calls.zip answers).filterMap Call.taken?

section Perform

variable [Source σ α] [Source τ α]

/-- What a call answers and what it leaves; `renewed` is what a new reader finds. -/
def perform (renewed : σ → σ) (s : σ) : Call α → Answer α × σ
  | .recv => (some (recv s).1, (recv s).2)
  | .peek => (some (peek s).1, (peek s).2)
  | .putBack item => (none, putBack item s)
  | .renew => (none, renewed s)

/-- The answers to calls made one after the other, and what is left by them. -/
def performAll (renewed : σ → σ) (s : σ) : List (Call α) → List (Answer α) × σ
  | [] => ([], s)
  | call :: calls =>
    let (answer, s) := perform renewed s call
    let (answers, s) := performAll renewed s calls
    (answer :: answers, s)

section Alike

variable {K : σ → τ → Prop} (renewed : σ → σ) (renewed' : τ → τ) (hK : Alike K)
  (hputBack : ∀ item s t, K s t → K (putBack item s) (putBack item t))
  (hrenewed : ∀ s t, K s t → K (renewed s) (renewed' t))
include hK hputBack hrenewed

theorem perform_alike (call : Call α) {s : σ} {t : τ} (h : K s t) :
    (perform renewed s call).1 = (perform renewed' t call).1 ∧
      K (perform renewed s call).2 (perform renewed' t call).2 := by
  cases call with
  | recv => exact (hK.recv s t h).imp_left (congrArg some)
  | peek => exact (hK.peek s t h).imp_left (congrArg some)
  | putBack item => exact ⟨rfl, hputBack item s t h⟩
  | renew => exact ⟨rfl, hrenewed s t h⟩

/-- Sources that read alike, and stay so when items are given back and readers replaced, answer
alike to the end. -/
theorem performAll_alike (calls : List (Call α)) {s : σ} {t : τ} (h : K s t) :
    (performAll renewed s calls).1 = (performAll renewed' t calls).1 ∧
      K (performAll renewed s calls).2 (performAll renewed' t calls).2 := by
  induction calls generalizing s t with
  | nil => exact ⟨rfl, h⟩
  | cons call calls ih =>
    obtain ⟨hanswer, hrel⟩ := perform_alike renewed renewed' hK hputBack hrenewed call h
    obtain ⟨hanswers, hrels⟩ := ih hrel
    exact ⟨congrArg₂ List.cons hanswer hanswers, hrels⟩

end Alike

/-! ## Lists keep count of their items -/

theorem given_cons (call : Call α) (calls : List (Call α)) :
    given (call :: calls) = call.given?.toList ++ given calls := by
  cases h : call.given? <;> simp [given, h]

theorem taken_cons (call : Call α) (calls : List (Call α)) (answer : Answer α)
    (answers : List (Answer α)) :
    taken (call :: calls) (answer :: answers) =
      (Call.taken? (call, answer)).toList ++ taken calls answers := by
  cases h : Call.taken? (call, answer) <;> simp [taken, h]

/-- One call of a list: what it takes and leaves is what was there and what it adds. -/
theorem taken_perform (call : Call α) (xs : List α) :
    (Call.taken? (call, (perform id xs call).1)).toList ++ (perform id xs call).2 =
      call.given?.toList ++ xs := by
  cases call <;> cases xs <;> rfl

open scoped List in
/-- What calls of a list take and leave is what was there and what they gave back. -/
theorem taken_performAll_perm (calls : List (Call α)) (xs : List α) :
    (taken calls (performAll id xs calls).1 ++ (performAll id xs calls).2).Perm
      (given calls ++ xs) := by
  induction calls generalizing xs with
  | nil => exact .refl _
  | cons call calls ih =>
    have hone := taken_perform call xs
    simp only [performAll, taken_cons, given_cons]
    generalize perform id xs call = performed at hone ⊢
    obtain ⟨answer, ys⟩ := performed
    calc (Call.taken? (call, answer)).toList ++ taken calls (performAll id ys calls).1 ++
          (performAll id ys calls).2
      _ = (Call.taken? (call, answer)).toList ++
          (taken calls (performAll id ys calls).1 ++ (performAll id ys calls).2) :=
        List.append_assoc _ _ _
      _ ~ (Call.taken? (call, answer)).toList ++ (given calls ++ ys) := (ih ys).append_left _
      _ ~ given calls ++ ((Call.taken? (call, answer)).toList ++ ys) :=
        List.perm_append_comm_assoc _ _ _
      _ = given calls ++ (call.given?.toList ++ xs) := congrArg _ hone
      _ ~ call.given?.toList ++ (given calls ++ xs) := List.perm_append_comm_assoc _ _ _
      _ = call.given?.toList ++ given calls ++ xs := (List.append_assoc _ _ _).symm

/-- If nothing is given back, what calls take comes first in the list, in order. -/
theorem taken_performAll_of_given (calls : List (Call α)) (xs : List α) (h : given calls = []) :
    taken calls (performAll id xs calls).1 ++ (performAll id xs calls).2 = xs := by
  induction calls generalizing xs with
  | nil => rfl
  | cons call calls ih =>
    rw [given_cons, List.append_eq_nil_iff] at h
    have hone := taken_perform call xs
    rw [h.1, List.nil_append] at hone
    simp only [performAll, taken_cons]
    rw [List.append_assoc, ih _ h.2, hone]

end Perform

end Source

/-! ## Receivers -/

namespace Receiver

open Source (Call performAll)

variable {α : Type} {r : Receiver α} {xs : List α}

/-- A new reader of the same channel, which finds the buffer and the mark of the end as they were
left. -/
def renewed (r : Receiver α) : Receiver α where
  channel := r.channel
  buffer := r.buffer
  ended := r.ended

theorem Serves.renewed (h : r.Serves xs) : r.renewed.Serves xs :=
  ⟨h.contents, h.closes⟩

theorem Serves.putBack (h : r.Serves xs) (item : α) : (r.putBack item).Serves (item :: xs) :=
  ⟨congrArg (item :: ·) h.contents, h.closes⟩

/-- **A receiver answers every call as the list of what it has to deliver**: what is in its buffer,
and in its channel up to the first end marker.  Nothing is lost or doubled on the way: what was
taken and what is left are what was there and what was given back, and in the same order if nothing
was given back. -/
theorem performAll_receiver (queue : List (Message α)) (buffer : List α) (calls : List (Call α)) :
    let start : Receiver α := { channel := { queue, hasSender := false }, buffer }
    let items := buffer ++ Channel.itemsBeforeEnd queue
    let (answers, left) := performAll renewed start calls
    answers = (performAll id items calls).1 ∧ left.contents = (performAll id items calls).2 ∧
      (Source.taken calls answers ++ left.contents).Perm (Source.given calls ++ items) ∧
      (Source.given calls = [] → Source.taken calls answers ++ left.contents = items) := by
  intro start items
  have hstart : start.Serves items := ⟨rfl, .inr (.inr rfl)⟩
  obtain ⟨hanswers, hleft⟩ := Source.performAll_alike renewed id alike_serves
    (fun item _ _ h => h.putBack item) (fun _ _ h => h.renewed) calls hstart
  refine ⟨hanswers, hleft.contents, ?_, ?_⟩
  · rw [hanswers, hleft.contents]
    exact Source.taken_performAll_perm calls items
  · rw [hanswers, hleft.contents]
    exact Source.taken_performAll_of_given calls items

/-- An item given back after the end comes out once more; the one behind the marker never does. -/
example :
    (performAll renewed
        { channel := { queue := [.item 1, .endOfStream, .item 2], hasSender := false },
          buffer := [0] : Receiver Nat }
        [.recv, .peek, .renew, .recv, .recv, .putBack 1, .renew, .recv, .recv]).1 =
      [some (.ok 0), some (.ok 1), none, some (.ok 1), some (.error .endOfStream), none, none,
        some (.ok 1), some (.error .endOfStream)] :=
  rfl

end Receiver

end BusDecode
