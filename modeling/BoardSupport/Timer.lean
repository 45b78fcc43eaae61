import BoardSupport.Program.Access
import BoardSupport.Register.Halves

/-!
The system timer: a 64-bit counter and a 64-bit compare value, both shown as two 32-bit registers.
The interrupt is raised while the counter is at or past the compare value. Each operation orders its
accesses so that neither a carry nor the comparator can catch it half done.
-/
namespace BoardSupport

structure Timer where
  block : Block
  deriving DecidableEq, Repr

namespace Timer

inductive Register
  | timeLow | timeHigh | compareLow | compareHigh
  deriving DecidableEq, Repr

namespace Register

/-- The distance of the register from the start of its block. -/
def offset : Register → Nat
  | .timeLow => 0x0
  | .timeHigh => 0x4
  | .compareLow => 0x8
  | .compareHigh => 0xC

def all : List Register := [.timeLow, .timeHigh, .compareLow, .compareHigh]

def ofOffset? (offset : Nat) : Option Register := all.find? fun r => r.offset == offset

@[simp] theorem ofOffset?_offset (r : Register) : ofOffset? r.offset = some r := by
  cases r <;> rfl

end Register

def readWord (t : Timer) (r : Register) : Program UInt32 := t.block.read r.offset

def writeWord (t : Timer) (r : Register) (value : UInt32) : Program Unit :=
  t.block.write r.offset value

/-- Loads the counter. The lower half is zeroed first, so that no carry can run into the upper half
between the two real writes. -/
def setTime (t : Timer) (value : UInt64) : Program Unit := do
  t.writeWord .timeLow 0
  t.writeWord .timeHigh (highHalf value)
  t.writeWord .timeLow (lowHalf value)

/-- Reads the counter. The upper half is read on both sides of the lower one; when the two readings
differ, the lower half wrapped in between and the reading starts again. -/
def time (t : Timer) : Program UInt64 :=
  Program.poll do
    let high ← t.readWord .timeHigh
    let low ← t.readWord .timeLow
    let again ← t.readWord .timeHigh
    return if again = high then some (joinHalves high low) else none

/-- Programs the compare value. The lower half stands at all ones while the upper half changes, so
the comparator never sees a value earlier than both the old and the new one. -/
def setCompare (t : Timer) (value : UInt64) : Program Unit := do
  t.writeWord .compareLow 0xFFFFFFFF
  t.writeWord .compareHigh (highHalf value)
  t.writeWord .compareLow (lowHalf value)

/-- Reads the compare value. Only software writes it, so one reading of each half is enough. -/
def compare (t : Timer) : Program UInt64 := do
  let high ← t.readWord .compareHigh
  let low ← t.readWord .compareLow
  return joinHalves high low

/-- Sets the compare value `delta` cycles from now, and gives that value. -/
def scheduleIn (t : Timer) (delta : UInt64) : Program UInt64 := do
  let now ← t.time
  let target := now + delta
  t.setCompare target
  return target

/-- Milliseconds on a counter that runs at `clockHz`. The product is taken exactly; only the
quotient is cut to 64 bits. -/
def uptimeMs (t : Timer) (clockHz : UInt32) : Program UInt64 := do
  let now ← t.time
  if clockHz = 0 then .fault .divideByZero
  else return UInt64.ofNat (now.toNat * 1000 / clockHz.toNat)

inductive Command
  | setTime (value : UInt64)
  | time
  | setCompare (value : UInt64)
  | compare
  | scheduleIn (delta : UInt64)
  | uptimeMs (clockHz : UInt32)
  deriving DecidableEq, Repr

/-- Carries out an operation; those that only write give nothing. -/
def perform (t : Timer) : Command → Program (Option UInt64)
  | .setTime v => do t.setTime v; return none
  | .time => do return some (← t.time)
  | .setCompare v => do t.setCompare v; return none
  | .compare => do return some (← t.compare)
  | .scheduleIn d => do return some (← t.scheduleIn d)
  | .uptimeMs hz => do return some (← t.uptimeMs hz)

end Timer

end BoardSupport
