import BusDecode.Proofs.Likeness
import BusDecode.Proofs.Updi.Congruence

/-!
# Commands and runs that match

Scripts that match are a concord if the moves along their lines match, whatever relates the sessions
that a failure leaves, as long as all related sessions are related so too
(`Reception.concord_matches`); scripts that are alike are a congruence if their moves are.  Commands
match if their syncs do, steps if their commands do, and runs if their first steps do.
-/

set_option autoImplicit false

namespace BusDecode

namespace Updi

open Decoder (OnLine)
open Script (Alike Matches)

variable {σ τ : Type} [Source σ Sample] [Source τ Sample] {c : Nat}
  {I : Annotation → Annotation → Prop}

namespace Reception

variable {r : Session σ → Session τ → Prop} {s : Session σ} {t : Session τ}

theorem concord_matches {E : ∀ (ε : Type) [Cause ε], ε → Session σ → Session τ → Prop}
    (hr : Staggered c r) (hI : ∀ a b, a.Later c b → I a b)
    (hE : ∀ {ε : Type} [Cause ε] (e : ε) s t, r s t → E ε e s t)
    (hhalt : ∀ e s t, E Halt e s t → E Interrupt (.halt e) s t)
    (hfall : Matches I r r (E Halt) (waitEdge .falling none) (waitEdge .falling none))
    (hskip : ∀ count, Matches I r r (E Halt) (skip count) (skip count)) :
    Concord c r fun ε _ _ => Matches I r r (E ε) where
  toStaggered := hr
  answer := .answer
  fail e := .fail (hE e)
  read_bind _ := .read_bind
  modify := .modify
  tell _ _ _ _ := .note _ _
  emit h := .emit fun s t hst => hI _ _ (h s t hst)
  bind := .bind
  orHalt h := h.mapError hhalt
  fall := hfall
  skip := hskip

theorem congruence_alike (hr : Peers r)
    (hwait : ∀ edge budget, Alike r (waitEdge edge budget : Reception σ Halt Bool)
      (waitEdge edge budget))
    (hskip : ∀ count, Alike r (skip count : Reception σ Halt Bool) (skip count)) :
    Congruence r fun _ _ _ => Alike r where
  toPeers := hr
  answer := .answer
  fail := .fail
  read := .read
  modify := .modify
  tell _ _ _ _ := .note _ _
  emit := .emit
  bind := .bind
  orHalt h := h.mapError _
  withhold := .withhold
  loop := .loop
  waitEdge := hwait
  skip := hskip

/-- A command goes on after its sync, and is dropped if it is broken off. -/
theorem command_matches {E : Halt → Session σ → Session τ → Prop}
    {E' : Interrupt → Session σ → Session τ → Prop}
    (hsync : (sync.run s).Matches I r E (sync.run t))
    (hafter : Matches I r r E' (afterSync : Reception σ Interrupt Unit) afterSync)
    (hresync : ∀ s t, E' .resync s t → r s t) (hhalt : ∀ e s t, E' (.halt e) s t → E e s t) :
    (command.run s).Matches I r E (command.run t) := by
  refine hsync.bind fun _ _ hst => (hafter _ _ hst).attempt_bind ?_ ?_
  · exact fun _ h => Matches.answer () _ _ h
  · intro e h
    cases e with
    | resync => exact Matches.answer () _ _ (hresync _ _ h)
    | halt e => exact Matches.fail (fun _ _ h => hhalt e _ _ h) _ _ h

end Reception

namespace Decoder

variable {r : OnLine σ → OnLine τ → Prop} {E : Halt → OnLine σ → OnLine τ → Prop}
  {r₀ : Session σ → Session τ → Prop} {E₀ : Halt → Session σ → Session τ → Prop} {s : OnLine σ}
  {t : OnLine τ}

/-- A step decodes a command in a session of its own. -/
theorem step_matches (hrate : s.decoder.config.samplerate = t.decoder.config.samplerate)
    (hnone : s.decoder.config.samplerate = none → ∀ e, E e s t)
    (hend : ∀ s t, r₀ s t → r ⟨s.decoder, s.source⟩ ⟨t.decoder, t.source⟩)
    (herror : ∀ e s t, E₀ e s t → E e ⟨s.decoder, s.source⟩ ⟨t.decoder, t.source⟩)
    (hcommand : (Reception.command.run { decoder := s.decoder, source := s.source }).Matches I r₀ E₀
      (Reception.command.run { decoder := t.decoder, source := t.source })) :
    (step.run s).Matches I r E (step.run t) := by
  unfold step
  dsimp only
  rw [← hrate]
  split
  · exact ⟨rfl, nofun, fun e _ => hnone ‹_› e, .nil⟩
  · exact hcommand.mapState hend herror

/-- A run is a step and another run. -/
theorem run_matches (hs : (step.run s).Matches I r E (step.run t))
    (hstep : Matches I r r E (step : Script (OnLine σ) Annotation Halt Unit) step) :
    (run.run s).Matches I r E (run.run t) := by
  induction hn : s.unread using Nat.strongRecOn generalizing s t with
  | ind n ih =>
    subst hn
    rw [run_eq, run_eq]
    refine hs.bind fun _ hanswer hst => ?_
    exact ih _ (consumes_step s () hanswer) (hstep _ _ hst) rfl

end Decoder

end Updi

end BusDecode
