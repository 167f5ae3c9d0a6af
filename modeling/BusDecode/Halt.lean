/-!
# Why work stops

Conditions a decoder cannot go on from, and the wider family of reasons for which reading,
writing or a node's work comes to a halt.  Breaches of a protocol in the captured traffic are not
among them: those become warning annotations.
-/

set_option autoImplicit false

namespace BusDecode

/-- Conditions that a decoder cannot go on from. -/
inductive DecodeError where
  /-- the sample rate of the capture is not known -/
  | missingSampleRate
  /-- a size selector that stands for no supported width -/
  | unsupportedWidth (field : String) (selector : Nat)
  /-- a text field that holds a byte above 127 -/
  | nonAscii (field : String)
  deriving DecidableEq, Repr, Inhabited

namespace DecodeError

def message : DecodeError → String
  | missingSampleRate => "Cannot decode without samplerate"
  | unsupportedWidth field selector => s!"{field}: size selector {selector} too large"
  | nonAscii field => s!"{field} contains non-ASCII bytes"

end DecodeError

/-- Why reading, writing or a node's work stopped. -/
inductive Halt where
  /-- the input has ended; the normal way to finish -/
  | endOfStream
  /-- nothing has arrived yet, but more may -/
  | starved
  /-- an input channel broke -/
  | receiveFailed
  /-- nobody is left to take what was sent -/
  | sendFailed (reason : String)
  /-- a node gave up for a reason of its own -/
  | nodeFailed (reason : String)
  /-- the input cannot be decoded -/
  | undecodable (error : DecodeError)
  /-- a bit period was to be averaged over no interval at all -/
  | noIntervals
  deriving DecidableEq, Repr, Inhabited

namespace Halt

/-- What a channel says when it is read after its sender is gone and it has run empty. -/
def emptyChannel : String := "receiving on an empty and disconnected channel"

/-- What a channel says when its receiver is gone. -/
def closedChannel : String := "sending on a disconnected channel"

def message : Halt → String
  | endOfStream => "Shutdown signal received"
  | starved => "would block"
  | receiveFailed => s!"Failed to receive from input channel: {emptyChannel}"
  | sendFailed reason => s!"Failed to send to output channel: {reason}"
  | nodeFailed reason => s!"Node-specific error: {reason}"
  | undecodable error => s!"Decode error: {error.message}"
  | noIntervals => "attempt to divide by zero"

/-- Whether this is the normal end of the input. -/
def isEndOfStream : Halt → Bool
  | endOfStream => true
  | _ => false

/-- Whether this is a fault of the settings: it ends everything on the spot, with no report. -/
def isFault : Halt → Bool
  | noIntervals => true
  | _ => false

/-- The end of the input counts as success; every other halt stays what it is. -/
def untilEnd : Except Halt Unit → Except Halt Unit
  | .error .endOfStream => .ok ()
  | r => r

theorem untilEnd_error {e : Halt} (h : e ≠ .endOfStream) : untilEnd (.error e) = .error e := by
  cases e with
  | endOfStream => exact absurd rfl h
  | _ => rfl

end Halt

end BusDecode
