/-!
# Journal

Events that decoders, streams and graphs report while they work, apart from what they decode.
-/

set_option autoImplicit false

namespace BusDecode

/-- How much an event matters. -/
inductive Severity where
  | trace
  | debug
  | info
  | error
  deriving DecidableEq, Repr, Inhabited

/-- The name a severity is listed under. -/
def Severity.label : Severity → String
  | trace => "TRACE"
  | debug => "DEBUG"
  | info => "INFO"
  | error => "ERROR"

/-- One line of the journal. -/
structure Event where
  severity : Severity
  message : String
  deriving DecidableEq, Repr, Inhabited

namespace Event

/-- Severity and message, as an entry of a listing. -/
def describe (e : Event) : String :=
  s!"{e.severity.label} {e.message}"

/-- An event told by a named decoder or node: its name in brackets, then the message. -/
def told (name : String) (severity : Severity) (message : String) : Event :=
  ⟨severity, s!"[{name}] {message}"⟩

end Event

end BusDecode
