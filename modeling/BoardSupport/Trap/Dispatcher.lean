import BoardSupport.Trap.Handler

/-!
Trap dispatch: one trap, one hook of the installed handler. After an exception that is resumed, the
return address moves past the faulting instruction.
-/
namespace BoardSupport

open Text (hexWord)

/-- The width of the instruction that a resumed exception skips. -/
def instructionWidth : UInt32 := 4

/-- A dispatcher, by the state of the handler it has installed. -/
structure Dispatcher (η : Type) where
  handler : η

namespace Dispatcher

variable {η : Type}

/-- Installs a handler, and gives the one it replaces. -/
def install (d : Dispatcher η) (handler : η) : η × Dispatcher η := (d.handler, ⟨handler⟩)

/-- Where an exception goes on: past the faulting instruction if it is resumed. A return address
that cannot be written turns resuming into halting. -/
def finishException (ctx : TrapContext) (action : TrapAction) : Program TrapAction := do
  if action = .resume then
    match ← Csr.mepc.write (ctx.pc + instructionWidth) with
    | .ok () => return .resume
    | .error _ => return .halt
  else return action

/-- Handles the trap that the CSRs describe. -/
def dispatch (policy : TrapHandler η) (d : Dispatcher η) :
    Program (TrapAction × Dispatcher η) := do
  let ctx ← TrapContext.capture
  Program.report .trace .trap
    (pure ("trap: mcause=" ++ hexWord ctx.cause ++ " mepc=" ++ hexWord ctx.pc))
  if ctx.isInterrupt then
    let (action, h) ← policy.onInterrupt ctx d.handler
    return (action, ⟨h⟩)
  else
    let (action, h) ← policy.onException ctx d.handler
    return (← finishException ctx action, ⟨h⟩)

end Dispatcher

end BoardSupport
