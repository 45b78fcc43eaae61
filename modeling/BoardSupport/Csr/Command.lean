import BoardSupport.Csr.Interrupts

/-!
Interrupt control and raw CSR accesses as data: a command names an operation, and carrying it out
is a program that gives an answer.
-/
namespace BoardSupport

/-- Reads the cause, the address and the value of the trap being handled. -/
def TrapContext.capture : Program TrapContext := do
  let cause ← Csr.mcause.read
  let pc ← Csr.mepc.read
  let tval ← Csr.mtval.read
  return ⟨cause, pc, tval⟩

namespace Csr

inductive Command
  | read (csr : Csr)
  | write (csr : Csr) (value : UInt32)
  | setBits (csr : Csr) (mask : UInt32)
  | clearBits (csr : Csr) (mask : UInt32)
  | enableInterrupts
  | disableInterrupts
  | enableLine (line : Irq)
  | disableLine (line : Irq)
  | clearPending (line : Irq)
  | disableAll
  | clearAllPending
  | capture
  /-- The commands of the list, one after another, with interrupts masked. -/
  | criticalSection (body : List Command)

inductive Answer
  | word (value : UInt32)
  | result (result : Except DriverError Unit)
  | wasEnabled (result : Except DriverError Bool)
  | context (ctx : TrapContext)
  /-- The answers of a section's body, or why it did not end well. -/
  | sectionResult (result : Except DriverError (List Answer))

mutual

def Command.perform : Command → Program Answer
  | .read c => do return .word (← c.read)
  | .write c v => do return .result (← c.write v)
  | .setBits c m => do return .result (← c.setBits m)
  | .clearBits c m => do return .result (← c.clearBits m)
  | .enableInterrupts => do return .result (← Interrupts.enable)
  | .disableInterrupts => do return .wasEnabled (← Interrupts.disable)
  | .enableLine i => do return .result (← Interrupts.enableLine i)
  | .disableLine i => do return .result (← Interrupts.disableLine i)
  | .clearPending i => do return .result (← Interrupts.clearPending i)
  | .disableAll => do return .result (← Interrupts.disableAll)
  | .clearAllPending => do return .result (← Interrupts.clearAllPending)
  | .capture => do return .context (← TrapContext.capture)
  | .criticalSection body => do
    return .sectionResult (← Interrupts.criticalSection (Command.performAll body))

def Command.performAll : List Command → Program (List Answer)
  | [] => return []
  | c :: rest => do
    let answer ← c.perform
    let answers ← Command.performAll rest
    return answer :: answers

end

end Csr

end BoardSupport
