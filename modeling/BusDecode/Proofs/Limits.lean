import BusDecode.Proofs.Script

/-!
# Sinks that fill up

A sink that has room for so many items takes these from a run and refuses the next one.  What it
then holds are the first items of the run, and the run ends there, in the state that stands next to
the refused item (`play_limited`).
-/

set_option autoImplicit false

namespace BusDecode

namespace Trace

variable {δ β α : Type}

theorem playFrom_limited (result : Except Halt α) (state : δ) (effects : List (Effect δ β))
    (kept : Array β) (e : Halt) (room : Option Nat) (done : List Event) :
    (∃ left, (∀ n, room = some n → (effects.filterMap Effect.item?).length ≤ n) ∧
      playFrom result state effects (⟨kept, e, room⟩ : Limited (Array β)) done =
        ⟨result, state, ⟨kept ++ (effects.filterMap Effect.item?).toArray, e, left⟩,
          done.reverse ++ effects.filterMap Effect.event?⟩) ∨
    ∃ before item fallback after, effects = before ++ .emit item fallback :: after ∧
      room = some (before.filterMap Effect.item?).length ∧
      playFrom result state effects (⟨kept, e, room⟩ : Limited (Array β)) done =
        ⟨.error e, fallback, ⟨kept ++ (before.filterMap Effect.item?).toArray, e, some 0⟩,
          done.reverse ++ before.filterMap Effect.event?⟩ := by
  induction effects generalizing kept room done with
  | nil => exact .inl ⟨room, fun n _ => Nat.zero_le n, by simp [playFrom]⟩
  | cons effect rest ih =>
    cases effect with
    | note event =>
      rcases ih kept room (event :: done) with ⟨left, hroom, hplay⟩ |
        ⟨before, item, fallback, after, rfl, hroom, hplay⟩
      · exact .inl ⟨left, hroom, by simp [playFrom, hplay, List.filterMap_cons]⟩
      · exact .inr ⟨.note event :: before, item, fallback, after, rfl, hroom,
          by simp [playFrom, hplay, List.filterMap_cons]⟩
    | emit item fallback =>
      by_cases hfull : room = some 0
      · subst hfull
        exact .inr ⟨[], item, fallback, rest, rfl, rfl, by simp [playFrom, Sink.emit]⟩
      · have htaken : Sink.emit (⟨kept, e, room⟩ : Limited (Array β)) item =
            (.ok (), ⟨kept.push item, e, room.map (· - 1)⟩) := by
          simp [Sink.emit, hfull]
        have hstep : playFrom result state (.emit item fallback :: rest)
            (⟨kept, e, room⟩ : Limited (Array β)) done =
            playFrom result state rest (⟨kept.push item, e, room.map (· - 1)⟩ : Limited (Array β))
              done := by
          rw [playFrom, htaken]
        rw [hstep]
        rcases ih (kept.push item) (room.map (· - 1)) done with ⟨left, hroom, hplay⟩ |
          ⟨before, item', fallback', after, rfl, hroom, hplay⟩
        · refine .inl ⟨left, ?_, by simp [hplay, List.filterMap_cons]⟩
          rintro (_ | n) rfl
          · exact absurd rfl hfull
          · exact Nat.succ_le_succ (hroom n rfl)
        · refine .inr ⟨.emit item fallback :: before, item', fallback', after, rfl, ?_,
            by simp [hplay, List.filterMap_cons]⟩
          obtain ⟨n, rfl, hn⟩ := Option.map_eq_some_iff.1 hroom
          cases n with
          | zero => exact absurd rfl hfull
          | succ n => exact congrArg (fun n => some (n + 1)) hn

/-- How a run goes with a sink that has only so much room: all of it is taken and nothing else
changes, or the run ends at the first item there is no room for. -/
theorem play_limited (t : Trace δ β Halt α) (kept : Array β) (e : Halt) (room : Option Nat) :
    (∃ left, (∀ n, room = some n → t.items.length ≤ n) ∧
      t.play (⟨kept, e, room⟩ : Limited (Array β)) =
        ⟨t.result, t.state, ⟨kept ++ t.items.toArray, e, left⟩, t.events⟩) ∨
    ∃ before item fallback after, t.effects = before ++ .emit item fallback :: after ∧
      room = some (before.filterMap Effect.item?).length ∧
      t.play (⟨kept, e, room⟩ : Limited (Array β)) =
        ⟨.error e, fallback, ⟨kept ++ (before.filterMap Effect.item?).toArray, e, some 0⟩,
          before.filterMap Effect.event?⟩ :=
  playFrom_limited t.result t.state t.effects kept e room []

end Trace

end BusDecode
