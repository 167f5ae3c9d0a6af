import BusDecode.Proofs.Updi.Concord

/-!
# What goes on alike on two lines at the same times

Sessions are peers if reception reads the same from both and what it writes leaves them peers
(`Peers`).  A relation of scripts that every building block of reception respects, and that single
waits and skips satisfy, is a `Congruence`: a unison without a delay (`Congruence.unison`).  So
whatever is done to receive a command satisfies it too (`Congruence.afterSync`).
-/

set_option autoImplicit false

namespace BusDecode

namespace Updi

variable {σ τ : Type}

/-- A relation of sessions from which reception reads the same, and that it cannot break by what it
writes down. -/
structure Peers (r : Session σ → Session τ → Prop) : Prop where
  now : ∀ s t, r s t → s.now = t.now
  config : ∀ s t, r s t → s.decoder.config = t.decoder.config
  bitTime : ∀ s t, r s t → s.decoder.bitTime = t.decoder.bitTime
  syncStart : ∀ s t, r s t → s.decoder.syncStart = t.decoder.syncStart
  commandStart : ∀ s t, r s t → s.commandStart = t.commandStart
  byteStart : ∀ s t, r s t → s.byteStart = t.byteStart
  valueStart : ∀ s t, r s t → s.valueStart = t.valueStart
  frameEnd : ∀ s t, r s t → s.frameEnd = t.frameEnd
  setBitTime : ∀ s t n, r s t → r { s with decoder.bitTime := n } { t with decoder.bitTime := n }
  setSyncStart : ∀ s t n, r s t →
    r { s with decoder.syncStart := n } { t with decoder.syncStart := n }
  setCommandStart : ∀ s t start, r s t →
    r { s with commandStart := start } { t with commandStart := start }
  setByteStart : ∀ s t n, r s t → r { s with byteStart := n } { t with byteStart := n }
  setValueStart : ∀ s t n, r s t → r { s with valueStart := n } { t with valueStart := n }
  setFrameEnd : ∀ s t n, r s t → r { s with frameEnd := n } { t with frameEnd := n }
  count : ∀ s t f, Heedless f → r s t → r (s.count f) (t.count f)

/-- Peers are sessions without a delay. -/
theorem Peers.staggered {r : Session σ → Session τ → Prop} (h : Peers r) : Staggered 0 r where
  now s t hst := (h.now s t hst).symm
  config := h.config
  bitTime := h.bitTime
  syncStart s t hst := Later.zero_iff.2 (h.syncStart s t hst)
  commandStart s t hst := Later.rel_zero_iff.2 (h.commandStart s t hst)
  byteStart s t hst := Later.zero_iff.2 (h.byteStart s t hst)
  valueStart s t hst := Later.zero_iff.2 (h.valueStart s t hst)
  frameEnd s t hst := Later.zero_iff.2 (h.frameEnd s t hst)
  setBitTime := h.setBitTime
  setSyncStart s t a _ hab := Later.zero_iff.1 hab ▸ h.setSyncStart s t a
  setCommandStart s t a _ hab := Later.rel_zero_iff.1 hab ▸ h.setCommandStart s t a
  setByteStart s t a _ hab := Later.zero_iff.1 hab ▸ h.setByteStart s t a
  setValueStart s t a _ hab := Later.zero_iff.1 hab ▸ h.setValueStart s t a
  setFrameEnd s t a _ hab := Later.zero_iff.1 hab ▸ h.setFrameEnd s t a
  count := h.count

variable [Source σ Sample] [Source τ Sample]

/-- A relation of scripts that their building blocks respect. -/
structure Congruence (r : Session σ → Session τ → Prop)
    (R : ∀ (ε α : Type) [Cause ε], Reception σ ε α → Reception τ ε α → Prop) : Prop
    extends Peers r where
  answer : ∀ {ε α : Type} [Cause ε] (a : α), R ε α (pure a) (pure a)
  fail : ∀ {ε α : Type} [Cause ε] (e : ε), R ε α (Script.fail e) (Script.fail e)
  read : ∀ {ε α : Type} [Cause ε] {f : Session σ → α} {g : Session τ → α},
    (∀ s t, r s t → f s = g t) → R ε α (Script.read f) (Script.read g)
  modify : ∀ {ε : Type} [Cause ε] {f : Session σ → Session σ} {g : Session τ → Session τ},
    (∀ s t, r s t → r (f s) (g t)) → R ε Unit (Script.modify f) (Script.modify g)
  tell : ∀ {ε : Type} [Cause ε] (severity : Severity) {f : Session σ → String}
    {g : Session τ → String}, (∀ s t, r s t → f s = g t) →
    R ε Unit (Reception.tell severity f) (Reception.tell severity g)
  emit : ∀ {ε : Type} [Cause ε] {f : Session σ → Annotation} {g : Session τ → Annotation},
    (∀ s t, r s t → f s = g t) → R ε Unit (Script.emit f) (Script.emit g)
  bind : ∀ {ε α α' : Type} [Cause ε] {m : Reception σ ε α} {m' : Reception τ ε α}
    {f : α → Reception σ ε α'} {f' : α → Reception τ ε α'}, R ε α m m' →
    (∀ a, R ε α' (f a) (f' a)) → R ε α' (m >>= f) (m' >>= f')
  orHalt : ∀ {α : Type} {m : Reception σ Halt α} {m' : Reception τ Halt α}, R Halt α m m' →
    R Interrupt α m.orHalt m'.orHalt
  withhold : ∀ {m : Reception σ Halt Bool} {m' : Reception τ Halt Bool}, R Halt Bool m m' →
    R Halt Bool m.withhold m'.withhold
  loop : ∀ {α : Type} {m : Reception σ Halt (Option α)} {m' : Reception τ Halt (Option α)},
    R Halt (Option α) m m' → ∀ {size : Session σ → Nat} {size' : Session τ → Nat}
    (h : Script.Descends size m) (h' : Script.Descends size' m'),
    R Halt α (Script.loop m size h) (Script.loop m' size' h')
  waitEdge : ∀ edge budget,
    R Halt Bool (Reception.waitEdge edge budget) (Reception.waitEdge edge budget)
  skip : ∀ count, R Halt Bool (Reception.skip count) (Reception.skip count)

namespace Congruence

variable {r : Session σ → Session τ → Prop}
  {R : ∀ (ε α : Type) [Cause ε], Reception σ ε α → Reception τ ε α → Prop} (h : Congruence r R)

include h

/-- **A congruence is a unison** of sessions without a delay. -/
theorem unison : Unison 0 r R where
  toStaggered := h.toPeers.staggered
  answer := h.answer
  fail := h.fail
  read_bind hp hread hk :=
    h.bind (h.read fun s t hst => (hp rfl _ _).1 (hread s t hst)) fun a => hk a a ((hp rfl a a).2 rfl)
  modify := h.modify
  tell severity _ _ hmessage := h.tell severity (hmessage rfl)
  emit hitem := h.emit fun s t hst => Annotation.Later.zero_iff.1 (hitem s t hst)
  bind := h.bind
  orHalt := h.orHalt
  fall := h.waitEdge .falling none
  skip := h.skip
  withhold := h.withhold
  loop := h.loop
  waitEdge := h.waitEdge

theorem attemptAt (start : Nat) :
    R Halt Bool (Reception.attemptAt start) (Reception.attemptAt start) :=
  h.unison.attemptAt start

theorem attemptSync : R Halt (Option Unit) Reception.attemptSync Reception.attemptSync :=
  h.unison.attemptSync

theorem sync : R Halt Unit Reception.sync Reception.sync :=
  h.unison.sync

theorem afterSync : R Interrupt Unit Reception.afterSync Reception.afterSync :=
  h.unison.afterSync

end Congruence

end Updi

end BusDecode
