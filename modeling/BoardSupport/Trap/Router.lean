import BoardSupport.Timer
import BoardSupport.Trap.Handler

/-!
Interrupt routing: a periodic timer tick and the external channels. Anything else is fatal, and
masks every interrupt.
-/
namespace BoardSupport

open Text (hexWord)

/-- Where a trap was routed to. -/
inductive Routed
  /-- A timer tick; the compare value of the next one. -/
  | tick (nextCompare : UInt64)
  /-- An external channel, acknowledged. -/
  | external (channel : UInt8)
  /-- A cause that is not routed; every interrupt is masked. -/
  | fatal (cause : UInt32)
  deriving DecidableEq, Repr

/-- A routed trap halts only when it is fatal. -/
def Routed.action : Routed → TrapAction
  | .fatal _ => .halt
  | _ => .resume

/-- A router: the timer that ticks, and the cycles between two ticks. -/
structure Router where
  timer : Timer
  tickPeriod : UInt64
  deriving DecidableEq, Repr

namespace Router

def giveUp (cause : UInt32) : Program Routed := do
  Program.report .error .router
    (pure ("unhandled interrupt, mcause " ++ hexWord cause ++ "; masking all sources"))
  maskAllOrReport .router
  return .fatal cause

/-- Routes one trap: rearms the timer on a tick, acknowledges an external channel. -/
def route (r : Router) (ctx : TrapContext) : Program Routed := do
  match ctx.trap with
  | .interrupt .machineTimer => return .tick (← r.timer.scheduleIn r.tickPeriod)
  | .interrupt (.xirq channel) =>
    match ← Interrupts.clearPending (.xirq channel) with
    | .ok () => return .external channel
    | .error _ => giveUp ctx.cause
  | _ => giveUp ctx.cause

/-- The router as a trap handler; exceptions follow the default policy. -/
def handler : TrapHandler Router where
  onInterrupt ctx r := do return ((← r.route ctx).action, r)

end Router

end BoardSupport
