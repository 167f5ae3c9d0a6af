/-!
# Line samples

All times are sample numbers: the index of a sample in its capture.  A line is recorded run by
run, so a `Sample` says at which level a line is from its time on, until the next one.
-/

set_option autoImplicit false

namespace BusDecode

/-- The level of one line from a sample number on. -/
structure Sample where
  time : Nat
  level : Bool
  deriving DecidableEq, Repr, Inhabited

namespace Sample

/-- One-line description of a sample. -/
def describe (s : Sample) : String :=
  s!"Sample[v={s.level}, t={s.time}]"

end Sample

end BusDecode
