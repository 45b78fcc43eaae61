import BoardSupport.Program.Access
import BoardSupport.Trap.Cause

/-!
Interrupt control: the global enable, single lines, pending bits, and sections that run with
interrupts masked and put the enable back as it was.
-/
namespace BoardSupport.Interrupts

def enable : Program (Except DriverError Unit) := Csr.mstatus.setBits Csr.interruptEnable

/-- Clears the global enable, and tells whether it was set. -/
def disable : Program (Except DriverError Bool) := do
  let status ← Csr.mstatus.read
  match ← Csr.mstatus.clearBits Csr.interruptEnable with
  | .ok () => return .ok (status &&& Csr.interruptEnable != 0)
  | .error e => return .error e

/-- Lets one line interrupt. -/
def enableLine (line : Irq) : Program (Except DriverError Unit) := Csr.mie.setBits line.mask

def disableLine (line : Irq) : Program (Except DriverError Unit) := Csr.mie.clearBits line.mask

/-- Masks every line, then clears the global enable. -/
def disableAll : Program (Except DriverError Unit) := do
  match ← Csr.mie.write 0 with
  | .ok () => Csr.mstatus.clearBits Csr.interruptEnable
  | .error e => return .error e

/-- Acknowledges one pending line. -/
def clearPending (line : Irq) : Program (Except DriverError Unit) := Csr.mip.clearBits line.mask

/-- Acknowledges every pending line. -/
def clearAllPending : Program (Except DriverError Unit) := Csr.mip.write 0

/-- Runs `body` with interrupts masked and then restores the global enable, so that sections nest
and do no harm inside a trap handler. The body does not run if interrupts cannot be masked. -/
def criticalSection {α : Type} (body : Program α) : Program (Except DriverError α) := do
  match ← disable with
  | .error e => return .error e
  | .ok false => return .ok (← body)
  | .ok true =>
    let result ← body
    match ← enable with
    | .error e => return .error e
    | .ok () => return .ok result

end BoardSupport.Interrupts
