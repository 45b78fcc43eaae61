import BoardSupport.Csr.Command
import BoardSupport.Text.Hexadecimal

/-!
Trap handlers. A handler has one hook for interrupts and one for exceptions; both may use the CSRs
and the blocks, and both may change the handler's own state. A hook that a handler does not give
follows the default policy: acknowledge known interrupts, and halt on everything else.
-/
namespace BoardSupport

open Text (hex hexWord)

/-- Masks every interrupt; if that is refused, says so on behalf of `target`. -/
def maskAllOrReport (target : LogTarget) : Program Unit := do
  match ← Interrupts.disableAll with
  | .ok () => return ()
  | .error e => Program.report .error target (pure ("could not mask interrupts: " ++ e.name))

/-- The default for interrupts: acknowledge everything pending and resume. A code that belongs to no
line masks every interrupt and halts. -/
def defaultInterrupt (ctx : TrapContext) : Program TrapAction := do
  match ctx.trap with
  | .interrupt (.unknown code) =>
    Program.report .error .trap
      (pure ("unknown interrupt " ++ hex code.toNat ++ " at pc " ++ hexWord ctx.pc))
    maskAllOrReport .trap
    return .halt
  | _ =>
    match ← Interrupts.clearAllPending with
    | .ok () => return .resume
    | .error _ => return .halt

def TrapContext.description (ctx : TrapContext) : String :=
  match ctx.trap with
  | .exception (some e) => e.describe
  | _ => "unknown exception"

/-- The default for exceptions: say which it was, and halt. -/
def defaultException (ctx : TrapContext) : Program TrapAction := do
  Program.report .error .trap
    (pure (ctx.description ++ " (mcause " ++ hex ctx.cause.toNat ++ ") at pc " ++ hexWord ctx.pc
      ++ ", mtval " ++ hexWord ctx.tval))
  return .halt

/-- What a handler with state `η` does on each kind of trap. -/
structure TrapHandler (η : Type) where
  onInterrupt : TrapContext → η → Program (TrapAction × η) := fun ctx h => do
    return (← defaultInterrupt ctx, h)
  onException : TrapContext → η → Program (TrapAction × η) := fun ctx h => do
    return (← defaultException ctx, h)

namespace TrapHandler

def standard {η : Type} : TrapHandler η := {}

/-- A handler slot. While it is empty, traps follow the default policy. -/
def optional {η : Type} (handler : TrapHandler η) : TrapHandler (Option η) where
  onInterrupt ctx
    | some h => do
      let (action, h) ← handler.onInterrupt ctx h
      return (action, some h)
    | none => do return (← defaultInterrupt ctx, none)
  onException ctx
    | some h => do
      let (action, h) ← handler.onException ctx h
      return (action, some h)
    | none => do return (← defaultException ctx, none)

end TrapHandler

end BoardSupport
