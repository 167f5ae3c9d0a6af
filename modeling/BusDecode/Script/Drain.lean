import BusDecode.Script.Loop
import BusDecode.Script.Play
import BusDecode.Stream.Source

/-!
# Feeding a whole source

Hands the items of a source to a script one after the other until the source ends, which is the
normal way to finish.  It ends because every item taken makes the source smaller.
-/

set_option autoImplicit false

namespace BusDecode

namespace Script

variable {δ σ β α : Type} [Source σ α]

/-- Items left to take, at most. -/
def remaining (s : δ × σ) : Nat :=
  Source.size s.2

/-- Takes the next item, or answers with nothing at the end of the source. -/
def next? : Script (δ × σ) β Halt (Option α) :=
  lift fun s =>
    let (item, source) := Source.recv? s.2
    let (events, source) := Source.takeEvents source
    (item, (s.1, source), events)

/-- Runs a script beside a source. -/
def beside {ε α' : Type} (m : Script δ β ε α') : Script (δ × σ) β ε α' :=
  ⟨fun s => (m.run s.1).mapState fun d => (d, s.2)⟩

/-- Feeds one item; answers when there is none. -/
def feedNext (feed : α → Script δ β Halt Unit) : Script (δ × σ) β Halt (Option Unit) := do
  let item ← next?
  match item with
  | none => return some ()
  | some a =>
    beside (feed a)
    return none

theorem keeps_beside {ε α' : Type} (m : Script δ β ε α') :
    Keeps (NoMore remaining) (beside m : Script (δ × σ) β ε α') :=
  fun _ => Nat.le_refl _

theorem descends_feedNext (feed : α → Script δ β Halt Unit) :
    Descends remaining (feedNext feed : Script (δ × σ) β Halt (Option Unit)) := by
  intro s h
  unfold feedNext at h ⊢
  rw [run_bind] at h ⊢
  cases hr : (Source.recv? s.2).1 with
  | error e => simp [next?, hr] at h
  | ok item =>
    cases item with
    | none => simp [next?, hr] at h
    | some a =>
      have hlt : remaining ((next? : Script (δ × σ) β Halt (Option α)).run s).state
          < remaining s :=
        Nat.lt_of_le_of_lt (Source.size_takeEvents_le _) (Source.size_recv?_lt hr)
      have hle := (Keeps.bind (keeps_beside (feed a)) fun _ => Keeps.answer (none : Option Unit))
        ((next? : Script (δ × σ) β Halt (Option α)).run s).state
      simp only [next?, run_lift, hr] at hlt hle ⊢
      exact Nat.lt_of_le_of_lt hle hlt

/-- Feeds every item of a source until it ends. -/
def drain (feed : α → Script δ β Halt Unit) : Script (δ × σ) β Halt Unit :=
  loop (feedNext feed) remaining (descends_feedNext feed)

end Script

end BusDecode
