import BoardSupport.Device.Bus
import BoardSupport.Program.Run
import BoardSupport.Trap.Cause

/-!
A hart with devices around it: the platform that programs run on. The CSR file, the log filter and
the handler slot belong to the hart; every register access goes to the bus.
-/
namespace BoardSupport

/-- A hart and the devices of its bus. -/
structure Machine (δ : Type) where
  device : δ
  csrs : CsrUnit := ⟨.zero, []⟩
  /-- The values that the cycle counter takes after each reading of it. -/
  cycles : List UInt32 := []
  filter : LogFilter := .upTo .trace
  /-- The uptime kept by the installed trap handler, if one is installed. -/
  handler : Option Uptime := none

namespace Machine

variable {δ : Type}

def interruptsEnabled (m : Machine δ) : Bool :=
  m.csrs.file.get .mstatus &&& Csr.interruptEnable != 0

def setCsr (m : Machine δ) (c : Csr) (value : UInt32) : Machine δ :=
  { m with csrs := { m.csrs with file := m.csrs.file.set c value } }

/-- Hardware describes a trap in the CSRs. -/
def describeTrap (m : Machine δ) (ctx : TrapContext) : Machine δ :=
  ((m.setCsr .mcause ctx.cause).setCsr .mepc ctx.pc).setCsr .mtval ctx.tval

/-- Hardware takes a trap: the CSRs describe it, and the global enable moves to where the return
finds it. -/
def takeTrap (m : Machine δ) (ctx : TrapContext) (pending : UInt32) : Machine δ :=
  let status := m.csrs.file.get .mstatus
  let kept := status &&& ~~~(Csr.interruptEnable ||| Csr.previousEnable)
  let status := if m.interruptsEnabled then kept ||| Csr.previousEnable else kept
  ((m.describeTrap ctx).setCsr .mip pending).setCsr .mstatus status

/-- Hardware returns from a trap: the global enable comes back, and the place it was kept in is
set. -/
def returnFromTrap (m : Machine δ) : Machine δ :=
  let status := m.csrs.file.get .mstatus
  let kept := status &&& ~~~Csr.interruptEnable ||| Csr.previousEnable
  m.setCsr .mstatus
    (if status &&& Csr.previousEnable != 0 then kept ||| Csr.interruptEnable else kept)

/-- The machine after a CSR was read: the cycle counter moves on. -/
def afterCsrRead (m : Machine δ) (c : Csr) : Machine δ :=
  match c, m.cycles with
  | .cycle, next :: rest => { m.setCsr .cycle next with cycles := rest }
  | _, _ => m

/-- How the machine answers a request. A sleep ends the run, since nothing happens by itself. -/
def platform (bus : Bus δ) : Platform (Machine δ)
  | .load block offset, m =>
    match bus.load block offset m.device with
    | .ok (value, device) => .returned value { m with device }
    | .error c => .stopped (.fault c) m
  | .store block offset value, m =>
    match bus.store block offset value m.device with
    | .ok device => .returned () { m with device }
    | .error c => .stopped (.fault c) m
  | .readCsr c, m => .returned (m.csrs.file.get c) (m.afterCsrRead c)
  | .updateCsr c op, m =>
    match m.csrs.update c op with
    | .ok csrs => .returned (.ok ()) { m with csrs }
    | .error e => .returned (.error e) m
  | .logFilter, m => .returned m.filter m
  | .setLogFilter filter, m => .returned () { m with filter }
  | .log _, m => .returned () m
  | .delay _, m => .returned () m
  | .waitForInterrupt, m => .stopped (if m.interruptsEnabled then .idle else .parked) m
  | .handlerSlot, m => .returned m.handler m
  | .setHandlerSlot handler, m => .returned () { m with handler }

end Machine

end BoardSupport
