import BoardSupport.Firmware.Console
import BoardSupport.Trap.Dispatcher

/-!
The firmware's side of traps: the handler that counts timer ticks and reports external channels, its
installation, and the entry that the trap vector calls.
-/
namespace BoardSupport.Firmware

def seconds (u : Uptime) : Except Fault UInt64 := u.seconds tickPeriod clockHz

/-- What the handler does with a routed interrupt. -/
def account (routed : Routed) (uptime : Uptime) : Program Uptime := do
  match routed with
  | .tick nextCompare =>
    let uptime ← Program.ofExcept uptime.tick
    Program.report .debug .firmwareTrap do
      let s ← Program.ofExcept (seconds uptime)
      return "tick " ++ toString s.toNat ++ " s, next compare " ++ toString nextCompare.toNat
    return uptime
  | .external channel =>
    Program.report .info .firmwareTrap
      (pure ("external interrupt on channel " ++ toString channel.toNat))
    return uptime
  | .fatal _ => return uptime

/-- The firmware's trap handler. Exceptions follow the default policy. -/
def handler : TrapHandler Uptime where
  onInterrupt ctx uptime := do
    let routed ← router.route ctx
    let uptime ← account routed uptime
    return (routed.action, uptime)

/-- Zeroes the timer and arms the first tick. -/
def startTimer : Program Unit := do
  timer.setTime 0
  timer.setCompare tickPeriod

/-- Makes the handler with this uptime the target of every trap from now on. -/
def install (uptime : Uptime) : Program Unit := do
  match ← Interrupts.criticalSection (Program.request (.setHandlerSlot (some uptime))) with
  | .ok () => return ()
  | .error _ => Program.report .error .firmwareTrap (pure "trap handler not installed")

/-- Seconds since the timer was started; zero before a handler is installed. -/
def uptimeSeconds : Program UInt64 := do
  let result ← Interrupts.criticalSection do
    match ← Program.request .handlerSlot with
    | some uptime => Program.ofExcept (seconds uptime)
    | none => return 0
  match result with
  | .ok s => return s
  | .error _ => return 0

/-- Masks every interrupt and sleeps for good. -/
def parkHart : Program Empty := do
  let _ ← Interrupts.disableAll
  Program.forever () fun _ => waitForInterrupt

/-- Handles one trap with the installed handler. Returning goes back to the interrupted code. -/
def trapEntry : Program Unit := do
  let slot ← Program.request .handlerSlot
  let (action, dispatcher) ← Dispatcher.dispatch handler.optional ⟨slot⟩
  Program.request (.setHandlerSlot dispatcher.handler)
  if action = .halt then
    let never ← parkHart
    nomatch never

end BoardSupport.Firmware
