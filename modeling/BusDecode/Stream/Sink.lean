import BusDecode.Stream.Source

/-!
# Sinks

A sink takes items one by one and may refuse one.  An array takes everything and keeps it in
order; a limited sink refuses after a number of items.
-/

set_option autoImplicit false

namespace BusDecode

/-- A place to put items. -/
class Sink (κ : Type) (β : outParam Type) where
  /-- offers an item; a refused item is not kept -/
  emit : κ → β → Except Halt Unit × κ

namespace Sink

/-- An array keeps every item behind those it has. -/
instance ofArray {β : Type} : Sink (Array β) β where
  emit kept item := (.ok (), kept.push item)

@[simp] theorem emit_array {β : Type} (kept : Array β) (item : β) :
    emit kept item = (.ok (), kept.push item) := rfl

end Sink

namespace Limited

/-- Only items that the inner sink accepts count. -/
instance sink {κ β : Type} [Sink κ β] : Sink (Limited κ) β where
  emit
    | ⟨inner, refusal, allowance⟩, item =>
      if allowance = some 0 then (.error refusal, ⟨inner, refusal, allowance⟩) else
      match Sink.emit inner item with
      | (.ok (), inner) => (.ok (), ⟨inner, refusal, allowance.map (· - 1)⟩)
      | (.error e, inner) => (.error e, ⟨inner, refusal, allowance⟩)

end Limited

end BusDecode
