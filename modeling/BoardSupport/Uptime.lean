import BoardSupport.Fault

/-!
The uptime of a board, counted in timer ticks. Its arithmetic is 64 bits wide and a result that
does not fit is a fault.
-/
namespace BoardSupport

/-- The sum of two 64-bit values, if it fits. -/
def addChecked (a b : UInt64) : Except Fault UInt64 :=
  if a.toNat + b.toNat < UInt64.size then .ok (a + b) else .error .addOverflow

/-- The product of two 64-bit values, if it fits. -/
def mulChecked (a b : UInt64) : Except Fault UInt64 :=
  if a.toNat * b.toNat < UInt64.size then .ok (a * b) else .error .multiplyOverflow

/-- The number of timer ticks handled so far. -/
structure Uptime where
  ticks : UInt64 := 0
  deriving DecidableEq, Repr

namespace Uptime

def tick (u : Uptime) : Except Fault Uptime := do
  return ⟨← addChecked u.ticks 1⟩

/-- Whole seconds, for ticks of `period` cycles of a clock that runs at `clockHz`. -/
def seconds (u : Uptime) (period : UInt64) (clockHz : UInt32) : Except Fault UInt64 := do
  let cycles ← mulChecked u.ticks period
  if clockHz = 0 then .error .divideByZero else return cycles / clockHz.toUInt64

end Uptime

end BoardSupport
