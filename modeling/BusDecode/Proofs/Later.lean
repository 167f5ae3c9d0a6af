import BusDecode.Annotation

/-!
# Times that are a delay later

A decoder compares and hands on times it has taken from its input, and others that it has not taken
from anywhere yet, which are 0 whatever the input.  So a time remembered on a delayed input is
`Later`: by the delay, or not at all if it has not been set.  With no delay it is the same time.
-/

set_option autoImplicit false

namespace BusDecode

/-- A time on a delayed input: later by the delay, or 0 on both sides. -/
def Later (c a b : Nat) : Prop :=
  b = a + c ∨ a = 0 ∧ b = 0

namespace Later

variable {c a b : Nat}

theorem add (c a : Nat) : Later c a (a + c) :=
  .inl rfl

theorem unset (c : Nat) : Later c 0 0 :=
  .inr ⟨rfl, rfl⟩

theorem zero_iff : Later 0 a b ↔ a = b := by
  unfold Later
  omega

/-- A time that lies behind the delay is later by it. -/
theorem eq (h : Later c a b) (hb : c ≤ b) : b = a + c := by
  rcases h with h | ⟨rfl, rfl⟩
  · exact h
  · omega

/-- The maximum of two times, one of which has been set. -/
theorem max_add (h : Later c a b) (n : Nat) : max (n + c) b = max n a + c := by
  unfold Later at h
  omega

theorem getD {start start' : Option Nat} (hstart : Option.Rel (Later c) start start')
    (h : Later c a b) : Later c (start.getD a) (start'.getD b) := by
  cases hstart with
  | some hstart => exact hstart
  | none => exact h

theorem rel_zero_iff {start start' : Option Nat} :
    Option.Rel (Later 0) start start' ↔ start = start' := by
  refine ⟨fun h => ?_, ?_⟩
  · cases h with
    | some h => rw [zero_iff.1 h]
    | none => rfl
  · rintro rfl
    cases start with
    | none => exact .none
    | some start => exact .some (zero_iff.2 rfl)

end Later

namespace Annotation

/-- The same annotation at a later time. -/
def delay (c : Nat) (a : Annotation) : Annotation :=
  { a with start := a.start + c, stop := a.stop + c }

/-- An annotation on a delayed input: it ends later by the delay, and so it starts if its start has
been set. -/
structure Later (c : Nat) (a b : Annotation) : Prop where
  rest : b = { a.delay c with start := b.start }
  start : BusDecode.Later c a.start b.start

variable {c : Nat} {a b : Annotation}

theorem Later.zero_iff : Annotation.Later 0 a b ↔ a = b := by
  refine ⟨fun ⟨hrest, hstart⟩ => ?_, ?_⟩
  · rw [hrest, ← BusDecode.Later.zero_iff.1 hstart]
    rfl
  · rintro rfl
    exact ⟨rfl, BusDecode.Later.zero_iff.2 rfl⟩

theorem Later.eq (h : a.Later c b) (hb : c ≤ b.start) : b = a.delay c := by
  rw [h.rest, h.start.eq hb]
  rfl

end Annotation

end BusDecode
