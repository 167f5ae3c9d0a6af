import BusDecode.Updi.Session

/-!
# Finding the sync byte

A sync byte is low, high, low, … for one bit time each.  An attempt starts at a falling edge,
times the intervals between the edges that follow, takes their rounded average as the new bit
period and checks the stop bit at that period.  What an attempt annotates is held back until it
succeeds; an attempt that fails is abandoned, and the next falling edge starts another.
-/

set_option autoImplicit false

namespace BusDecode

namespace Updi

namespace Reception

variable {σ : Type} [Source σ Sample]

/-- Reports that a sync attempt was abandoned. -/
def tellAbandoned (reason : String) : Reception σ Halt Unit :=
  tell .debug fun _ => s!"Sync abandoned: {reason}"

/-- Waits for the next edges, `n` of them, annotating the bit before each.  The answer is `false`
as soon as one comes later than the longest credible bit time. -/
def measureBits (maxBitTime : Nat) : Nat → Reception σ Halt Bool
  | 0 => return true
  | n + 1 => do
    let start ← Script.read Session.now
    let _ ← waitEdge .either (some (maxBitTime * 3))
    let now ← Script.read Session.now
    let bitTime := now - start
    if maxBitTime < bitTime then
      tellAbandoned s!"bit {bitTime} samples"
      return false
    else
      putBit "data-bit" start ["x"]
      measureBits maxBitTime n

/-- Reads the last data bit and the stop bits of a sync byte at the period measured on it. -/
def finishSync (start : Nat) : Reception σ Halt Bool := do
  let _ ← dataBit (some "x")
  let stopped ← stopBits
  if stopped then
    putByte start 0x55
    putField "sync" (fun _ => start) ["SYNC"]
    return true
  else
    tellAbandoned "no stop bit"
    return false

/-- Takes the average of the intervals since `start` as the bit period.  The new period stands
even if the stop bit is then missing; an average of zero is no period. -/
def adoptPeriod (start intervals : Nat) : Reception σ Halt Bool := do
  let now ← Script.read Session.now
  if intervals = 0 then Script.fail .noIntervals
  else
    let period := (now - start + intervals / 2) / intervals
    if period = 0 then return false
    else
      Script.modify fun s => { s with decoder.bitTime := period }
      finishSync start

/-- Measures the sync byte whose start bit began at `start`; the answer says whether it is one. -/
def measureSync (start : Nat) : Reception σ Halt Bool := do
  let config ← Script.read fun s => s.decoder.config
  let _ ← waitEdge .rising (some (config.maxBitTime * 3))
  let now ← Script.read Session.now
  let bitTime := now - start
  if config.maxBitTime < bitTime then
    tellAbandoned s!"start bit {bitTime} samples"
    return false
  else
    putBit "start-bit" start ["Start bit", "Start", "S"]
    let credible ← measureBits config.maxBitTime (config.syncIntervals - 1)
    if credible then adoptPeriod start config.syncIntervals else return false

/-- What is known of the speed of a line, for the journal. -/
def speed (d : Decoder) : String :=
  s!"{d.bitTime} samples/bit" ++
    match d.baudRate with
    | some baud => s!", {Binary64.nearest baud} baud"
    | none => ""

/-- Waits for a falling edge and tries to take what follows as a sync byte. -/
def trySync : Reception σ Halt Bool := do
  let _ ← waitEdge .falling none
  let start ← Script.read Session.now
  Script.modify fun s => { s with frameEnd := start }
  let accepted ← (measureSync start).withhold
  if accepted then
    Script.modify fun s => { s with decoder.syncStart := start }
    Script.modify (Session.count fun c => { c with syncs := c.syncs + 1 })
    tell .debug fun s => s!"Sync at {start}: {speed s.decoder}"
    return true
  else return false

/-- One attempt at a sync; a failed one is counted. -/
def attemptSync : Reception σ Halt (Option Unit) := do
  let accepted ← trySync
  if accepted then return some ()
  else
    Script.modify (Session.count fun c => { c with syncAbandoned := c.syncAbandoned + 1 })
    return none

/-! ## Every attempt reads at least one sample -/

theorem frugal_tellAbandoned (reason : String) :
    Frugal (tellAbandoned reason : Reception σ Halt Unit) :=
  frugal_tell _ _

theorem frugal_measureBits (maxBitTime n : Nat) :
    Frugal (measureBits maxBitTime n : Reception σ Halt Bool) := by
  induction n with
  | zero => exact .answer _
  | succ n ih =>
    exact .bind (.read _) fun _ => .bind (frugal_waitEdge _ _) fun _ => .bind (.read _) fun _ =>
      .ite (.bind (frugal_tellAbandoned _) fun _ => .answer _)
        (.bind (frugal_putBit _ _ _) fun _ => ih)

theorem frugal_finishSync (start : Nat) : Frugal (finishSync start : Reception σ Halt Bool) :=
  .bind (frugal_dataBit _) fun _ => .bind frugal_stopBits fun _ =>
    .ite (.bind (frugal_putByte _ _) fun _ => .bind (frugal_putField _ _ _) fun _ => .answer _)
      (.bind (frugal_tellAbandoned _) fun _ => .answer _)

theorem frugal_adoptPeriod (start intervals : Nat) :
    Frugal (adoptPeriod start intervals : Reception σ Halt Bool) :=
  .bind (.read _) fun _ => .ite (.fail _) <| .ite (.answer _) <|
    .bind (frugal_modify fun _ => rfl) fun _ => frugal_finishSync _

theorem frugal_measureSync (start : Nat) : Frugal (measureSync start : Reception σ Halt Bool) :=
  .bind (.read _) fun _ => .bind (frugal_waitEdge _ _) fun _ => .bind (.read _) fun _ =>
    .ite (.bind (frugal_tellAbandoned _) fun _ => .answer _) <|
      .bind (frugal_putBit _ _ _) fun _ => .bind (frugal_measureBits _ _) fun _ =>
        .ite (frugal_adoptPeriod _ _) (.answer _)

theorem consumes_trySync :
    Script.Consumes Session.unread (trySync : Reception σ Halt Bool) :=
  .bind_left (consumes_waitEdge _) fun _ => .bind (.read _) fun _ =>
    .bind (frugal_modify fun _ => rfl) fun _ => .bind (.withhold (frugal_measureSync _)) fun _ =>
      .ite (.bind (frugal_modify fun _ => rfl) fun _ => .bind (frugal_count _) fun _ =>
        .bind (frugal_tell _ _) fun _ => .answer _) (.answer _)

theorem consumes_attemptSync :
    Script.Consumes Session.unread (attemptSync : Reception σ Halt (Option Unit)) :=
  .bind_left consumes_trySync fun _ =>
    .ite (.answer _) (.bind (frugal_count _) fun _ => .answer _)

theorem descends_attemptSync :
    Script.Descends Session.unread (attemptSync : Reception σ Halt (Option Unit)) :=
  fun s h => consumes_attemptSync s none h

/-! ## The sync of a command -/

/-- Tries one falling edge after the other until a sync is found or the line ends. -/
def sync : Reception σ Halt Unit :=
  Script.loop attemptSync Session.unread descends_attemptSync

theorem consumes_sync : Script.Consumes Session.unread (sync : Reception σ Halt Unit) :=
  .loop consumes_attemptSync _

theorem frugal_trySync : Frugal (trySync : Reception σ Halt Bool) :=
  .bind (frugal_waitEdge _ _) fun _ => .bind (.read _) fun _ =>
    .bind (frugal_modify fun _ => rfl) fun _ => .bind (.withhold (frugal_measureSync _)) fun _ =>
      .ite (.bind (frugal_modify fun _ => rfl) fun _ => .bind (frugal_count _) fun _ =>
        .bind (frugal_tell _ _) fun _ => .answer _) (.answer _)

theorem frugal_sync : Frugal (sync : Reception σ Halt Unit) :=
  .loop (.bind frugal_trySync fun _ =>
    .ite (.answer _) (.bind (frugal_count _) fun _ => .answer _)) _ _

end Reception

end Updi

end BusDecode
