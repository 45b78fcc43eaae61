import BoardSupport.Device.Bus
import BoardSupport.Timer

/-!
A timer block whose counter can be made to move between two accesses.
-/
namespace BoardSupport

structure TimerModel where
  time : UInt64 := 0
  compare : UInt64 := 0
  /-- The ticks that pass right after the next reading of the lower half. -/
  ticksAfterLow : UInt64 := 0
  /-- The readings of the upper half so far. -/
  highReads : UInt32 := 0
  /-- The compare value after each write of one of its halves. -/
  compareTrace : Array UInt64 := #[]
  deriving DecidableEq, Repr

namespace TimerModel

/-- Lets ticks pass right after the next reading of the lower half. -/
def tickAfterLow (m : TimerModel) (ticks : UInt64) : TimerModel := { m with ticksAfterLow := ticks }

/-- Forgets the compare values seen so far. -/
def resetTrace (m : TimerModel) : TimerModel := { m with compareTrace := #[] }

/-- The compare value as the comparator sees it from now on. -/
def putCompare (m : TimerModel) (value : UInt64) : TimerModel :=
  { m with compare := value, compareTrace := m.compareTrace.push value }

/-- A read. The pending ticks pass after the lower half of the counter. -/
def load (offset : Nat) (m : TimerModel) : Except Fault (UInt32 × TimerModel) :=
  match Timer.Register.ofOffset? offset with
  | some .timeLow =>
    .ok (lowHalf m.time, { m with time := m.time + m.ticksAfterLow, ticksAfterLow := 0 })
  | some .timeHigh =>
    if m.highReads = 0xFFFFFFFF then .error .addOverflow
    else .ok (highHalf m.time, { m with highReads := m.highReads + 1 })
  | some .compareLow => .ok (lowHalf m.compare, m)
  | some .compareHigh => .ok (highHalf m.compare, m)
  | none => .error (.timerRead offset)

def store (offset : Nat) (value : UInt32) (m : TimerModel) : Except Fault TimerModel :=
  match Timer.Register.ofOffset? offset with
  | some .timeLow => .ok { m with time := withLow m.time value }
  | some .timeHigh => .ok { m with time := withHigh m.time value }
  | some .compareLow => .ok (m.putCompare (withLow m.compare value))
  | some .compareHigh => .ok (m.putCompare (withHigh m.compare value))
  | none => .error (.timerWrite offset)

def bus : Bus TimerModel := .single load store

end TimerModel

end BoardSupport
