import BoardSupport.Trap.Router

/-!
The handlers that a dispatcher can be given as data: the default policy, a pair of functions, a
recorder that answers as told, and the interrupt router.
-/
namespace BoardSupport

/-- The handler without state of its own that calls one function for each kind of trap. -/
def TrapHandler.ofFunctions (interrupt exception : TrapContext → Program TrapAction) :
    TrapHandler Unit where
  onInterrupt ctx _ := do return (← interrupt ctx, ())
  onException ctx _ := do return (← exception ctx, ())

/-- A fixed answer if there is one, and what `otherwise` answers if not. -/
def answerOr (answer : Option TrapAction) (otherwise : TrapContext → Program TrapAction)
    (ctx : TrapContext) : Program TrapAction :=
  match answer with
  | some action => return action
  | none => otherwise ctx

/-- Fixed answers to traps; a kind without one follows the default policy. -/
structure TrapAnswers where
  interrupt : Option TrapAction := none
  exception : Option TrapAction := none
  deriving DecidableEq, Repr

def TrapAnswers.functions (a : TrapAnswers) : TrapHandler Unit :=
  .ofFunctions (answerOr a.interrupt defaultInterrupt) (answerOr a.exception defaultException)

/-- A handler that keeps the contexts it was called with, in order, and then answers. -/
structure TrapRecorder where
  interrupts : List TrapContext := []
  exceptions : List TrapContext := []
  answers : TrapAnswers := {}
  deriving DecidableEq, Repr

def TrapRecorder.handler : TrapHandler TrapRecorder where
  onInterrupt ctx r := do
    let action ← answerOr r.answers.interrupt defaultInterrupt ctx
    return (action, { r with interrupts := r.interrupts ++ [ctx] })
  onException ctx r := do
    let action ← answerOr r.answers.exception defaultException ctx
    return (action, { r with exceptions := r.exceptions ++ [ctx] })

/-- One of the handlers, with its state. -/
inductive TrapPolicy
  | standard
  | functions (answers : TrapAnswers)
  | recorder (recorder : TrapRecorder)
  | router (router : Router)
  deriving DecidableEq, Repr

namespace TrapPolicy

/-- A hook's answer, with the handler's new state as a policy. -/
def rewrap {η : Type} (policy : η → TrapPolicy) (x : Program (TrapAction × η)) :
    Program (TrapAction × TrapPolicy) := do
  let (action, h) ← x
  return (action, policy h)

def handler : TrapHandler TrapPolicy where
  onInterrupt ctx
    | .standard => rewrap (fun _ => .standard) (TrapHandler.standard.onInterrupt ctx ())
    | .functions a => rewrap (fun _ => .functions a) (a.functions.onInterrupt ctx ())
    | .recorder r => rewrap .recorder (TrapRecorder.handler.onInterrupt ctx r)
    | .router r => rewrap .router (Router.handler.onInterrupt ctx r)
  onException ctx
    | .standard => rewrap (fun _ => .standard) (TrapHandler.standard.onException ctx ())
    | .functions a => rewrap (fun _ => .functions a) (a.functions.onException ctx ())
    | .recorder r => rewrap .recorder (TrapRecorder.handler.onException ctx r)
    | .router r => rewrap .router (Router.handler.onException ctx r)

end TrapPolicy

end BoardSupport
