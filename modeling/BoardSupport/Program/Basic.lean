import BoardSupport.Csr.Unit
import BoardSupport.Log
import BoardSupport.MemoryMap
import BoardSupport.Uptime

/-!
Programs as data. A program asks its hart and the blocks around it for one thing at a time (a
`Request`), goes on with the answer, and may wait in a loop for as long as the answers make it. What
the requests mean is left to a platform, so the same program runs against any hardware, and a
statement about all hardware is a statement about all platforms.
-/
namespace BoardSupport

/-- One thing that a program asks for. -/
inductive Request
  | load (block : Block) (offset : Nat)
  | store (block : Block) (offset : Nat) (value : UInt32)
  | readCsr (csr : Csr)
  | updateCsr (csr : Csr) (update : CsrUpdate)
  /-- The levels of log records that are heard. -/
  | logFilter
  /-- Choose the levels of log records that are heard. -/
  | setLogFilter (filter : LogFilter)
  | log (record : LogRecord)
  /-- Let at least this many cycles pass. -/
  | delay (cycles : UInt32)
  /-- Sleep until an interrupt is taken. -/
  | waitForInterrupt
  /-- The uptime kept by the installed trap handler, or nothing before one is installed. -/
  | handlerSlot
  /-- Put a trap handler, by the uptime it keeps, where traps find it. -/
  | setHandlerSlot (handler : Option Uptime)
  deriving DecidableEq, Repr

abbrev Request.Reply : Request → Type
  | .load _ _ => UInt32
  | .store _ _ _ => Unit
  | .readCsr _ => UInt32
  | .updateCsr _ _ => Except DriverError Unit
  | .logFilter => LogFilter
  | .setLogFilter _ => Unit
  | .log _ => Unit
  | .delay _ => Unit
  | .waitForInterrupt => Unit
  | .handlerSlot => Option Uptime
  | .setHandlerSlot _ => Unit

/-- The end of one turn of a loop: another turn from a new state, or the loop's result. -/
inductive Turn (γ β : Type)
  | again (state : γ)
  | leave (result : β)
  deriving DecidableEq, Repr

/-- A program whose result is an `α`. -/
inductive Program : Type → Type 1
  | done {α : Type} (value : α) : Program α
  /-- The program meets a fault and ends. -/
  | fault {α : Type} (cause : Fault) : Program α
  /-- Ask, and go on with the answer. -/
  | ask {α : Type} (request : Request) (next : request.Reply → Program α) : Program α
  /-- Take turns, as many as it needs, then go on with the loop's result. -/
  | loop {α γ β : Type} (start : γ) (turn : γ → Program (Turn γ β)) (next : β → Program α) :
      Program α

namespace Program

def bind {α β : Type} : Program α → (α → Program β) → Program β
  | .done v, f => f v
  | .fault c, _ => .fault c
  | .ask r k, f => .ask r fun v => (k v).bind f
  | .loop g t k, f => .loop g t fun b => (k b).bind f

instance : Monad Program where
  pure := .done
  bind := bind

@[simp] theorem pure_eq {α : Type} (v : α) : (pure v : Program α) = .done v := rfl

@[simp] theorem bind_eq {α β : Type} (x : Program α) (f : α → Program β) : x >>= f = x.bind f := rfl

@[simp] theorem bind_done {α : Type} (x : Program α) : x.bind .done = x := by
  induction x with
  | done v => rfl
  | fault c => rfl
  | ask r k ih => simp [bind, ih]
  | loop g t k _ ih => simp [bind, ih]

theorem bind_assoc {α β γ : Type} (x : Program α) (f : α → Program β) (g : β → Program γ) :
    (x.bind f).bind g = x.bind fun v => (f v).bind g := by
  induction x with
  | done v => rfl
  | fault c => rfl
  | ask r k ih => simp [bind, ih]
  | loop s t k _ ih => simp [bind, ih]

def request (r : Request) : Program r.Reply := .ask r .done

/-- A checked calculation; its fault ends the program. -/
def ofExcept {α : Type} : Except Fault α → Program α
  | .ok v => .done v
  | .error c => .fault c

/-- Tries until an attempt gives a value. -/
def poll {β : Type} (attempt : Program (Option β)) : Program β :=
  .loop () (fun _ => attempt.bind fun
    | some b => .done (.leave b)
    | none => .done (.again ())) .done

/-- Asks until the answer is yes. -/
def waitUntil (test : Program Bool) : Program Unit :=
  poll (test.bind fun ready => .done (if ready then some () else none))

/-- Repeats forever, handing a state from one turn to the next. -/
def forever {γ : Type} (start : γ) (turn : γ → Program γ) : Program Empty :=
  .loop start (fun g => (turn g).bind fun g => .done (.again g)) .done

/-- Writes a log record if its level is heard; its text is worked out only then. -/
def report (level : LogLevel) (target : LogTarget) (message : Program String) : Program Unit := do
  let filter ← request .logFilter
  if filter.admits level then
    let text ← message
    request (.log ⟨level, target, text⟩)

/-- The program with every log record handed to `emit` instead. -/
def withLogger (emit : LogRecord → Program Unit) {α : Type} : Program α → Program α
  | .done v => .done v
  | .fault c => .fault c
  | .ask (.log record) k => (emit record).bind fun u => (k u).withLogger emit
  | .ask r k => .ask r fun v => (k v).withLogger emit
  | .loop g t k => .loop g (fun s => (t s).withLogger emit) fun b => (k b).withLogger emit

end Program

end BoardSupport
