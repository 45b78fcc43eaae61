/-!
Interrupt lines, trap causes, and how the cause register names them.
-/
namespace BoardSupport

/-- An interrupt line, known by its bit in `mie` and `mip`. -/
inductive Irq
  | machineSoftware
  | machineTimer
  | machineExternal
  /-- An external channel; only its low four bits count. -/
  | xirq (channel : UInt8)
  deriving DecidableEq, Repr

namespace Irq

/-- The bit of the line in `mie` and `mip`. -/
def bit : Irq → UInt32
  | .machineSoftware => 3
  | .machineTimer => 7
  | .machineExternal => 11
  | .xirq channel => 16 + (channel &&& 0xF).toUInt32

def mask (i : Irq) : UInt32 := 1 <<< i.bit

end Irq

/-- The bit of the cause register that tells interrupts from exceptions. -/
def interruptFlag : UInt32 := 0x80000000

/-- The cause of an asynchronous trap. -/
inductive Interrupt
  | machineSoftware
  | machineTimer
  | machineExternal
  | xirq (channel : UInt8)
  /-- A code that belongs to no line. -/
  | unknown (code : UInt32)
  deriving DecidableEq, Repr

namespace Interrupt

def ofCode (code : UInt32) : Interrupt :=
  if code = 3 then .machineSoftware
  else if code = 7 then .machineTimer
  else if code = 11 then .machineExternal
  else if 0x10 ≤ code ∧ code ≤ 0x1F then .xirq (code &&& 0xF).toUInt8
  else .unknown code

def code : Interrupt → UInt32
  | .machineSoftware => 3
  | .machineTimer => 7
  | .machineExternal => 11
  | .xirq channel => 0x10 ||| (channel &&& 0xF).toUInt32
  | .unknown code => code

/-- The word that the cause register holds for an interrupt. -/
def cause (i : Interrupt) : UInt32 := interruptFlag ||| i.code

end Interrupt

/-- The cause of a synchronous trap. -/
inductive Exception
  | instructionMisaligned
  | instructionFault
  | illegalInstruction
  | breakpoint
  | loadMisaligned
  | loadFault
  | storeMisaligned
  | storeFault
  | userEnvCall
  | supervisorEnvCall
  | machineEnvCall
  | instructionPageFault
  | loadPageFault
  | reserved14
  | storePageFault
  deriving DecidableEq, Repr

namespace Exception

def code : Exception → UInt32
  | .instructionMisaligned => 0x0
  | .instructionFault => 0x1
  | .illegalInstruction => 0x2
  | .breakpoint => 0x3
  | .loadMisaligned => 0x4
  | .loadFault => 0x5
  | .storeMisaligned => 0x6
  | .storeFault => 0x7
  | .userEnvCall => 0x8
  | .supervisorEnvCall => 0x9
  | .machineEnvCall => 0xB
  | .instructionPageFault => 0xC
  | .loadPageFault => 0xD
  | .reserved14 => 0xE
  | .storePageFault => 0xF

/-- The exception that a code names; some codes name none. -/
def ofCode? (code : UInt32) : Option Exception :=
  match code with
  | 0x0 => some .instructionMisaligned
  | 0x1 => some .instructionFault
  | 0x2 => some .illegalInstruction
  | 0x3 => some .breakpoint
  | 0x4 => some .loadMisaligned
  | 0x5 => some .loadFault
  | 0x6 => some .storeMisaligned
  | 0x7 => some .storeFault
  | 0x8 => some .userEnvCall
  | 0x9 => some .supervisorEnvCall
  | 0xB => some .machineEnvCall
  | 0xC => some .instructionPageFault
  | 0xD => some .loadPageFault
  | 0xE => some .reserved14
  | 0xF => some .storePageFault
  | _ => none

/-- A short description for a log line. -/
def describe : Exception → String
  | .instructionMisaligned => "misaligned access"
  | .instructionFault => "inst access fault"
  | .illegalInstruction => "illegal inst"
  | .breakpoint => "breakpoint"
  | .loadMisaligned => "load misaligned"
  | .loadFault => "load access fault"
  | .storeMisaligned => "store misaligned"
  | .storeFault => "store access fault"
  | .userEnvCall => "call from u-mode"
  | .supervisorEnvCall => "call from s-mode"
  | .machineEnvCall => "call from m-mode"
  | .instructionPageFault => "inst page fault"
  | .loadPageFault => "load page fault"
  | .reserved14 => "reserved"
  | .storePageFault => "store page fault"

def name : Exception → String
  | .instructionMisaligned => "InstructionMisaligned"
  | .instructionFault => "InstructionFault"
  | .illegalInstruction => "IllegalInstruction"
  | .breakpoint => "Breakpoint"
  | .loadMisaligned => "LoadMisaligned"
  | .loadFault => "LoadFault"
  | .storeMisaligned => "StoreMisaligned"
  | .storeFault => "StoreFault"
  | .userEnvCall => "UserEnvCall"
  | .supervisorEnvCall => "SupervisorEnvCall"
  | .machineEnvCall => "MachineEnvCall"
  | .instructionPageFault => "InstructionPageFault"
  | .loadPageFault => "LoadPageFault"
  | .reserved14 => "Reserved14"
  | .storePageFault => "StorePageFault"

end Exception

inductive Trap
  | interrupt (interrupt : Interrupt)
  /-- An exception, or a code that belongs to none. -/
  | exception (exception : Option Exception)
  deriving DecidableEq, Repr

/-- Reads the cause register's word. -/
def Trap.decode (cause : UInt32) : Trap :=
  let code := cause &&& ~~~interruptFlag
  if cause &&& interruptFlag != 0 then .interrupt (Interrupt.ofCode code)
  else .exception (Exception.ofCode? code)

/-- The machine state that a trap leaves in the CSRs. -/
structure TrapContext where
  cause : UInt32
  /-- The interrupted or faulting instruction. -/
  pc : UInt32
  /-- The faulting address or instruction bits, depending on the cause. -/
  tval : UInt32
  deriving DecidableEq, Repr

namespace TrapContext

def isInterrupt (ctx : TrapContext) : Bool := ctx.cause &&& interruptFlag != 0

def trap (ctx : TrapContext) : Trap := Trap.decode ctx.cause

end TrapContext

/-- What the trap vector does once the handler is done. -/
inductive TrapAction
  /-- Go on with the interrupted code; after an exception, with the next instruction. -/
  | resume
  /-- Run the faulting instruction again. -/
  | retry
  /-- Mask every interrupt and park the hart. -/
  | halt
  deriving DecidableEq, Repr

def TrapAction.all : List TrapAction := [.resume, .retry, .halt]

def TrapAction.name : TrapAction → String
  | .resume => "Resume"
  | .retry => "Retry"
  | .halt => "Halt"

end BoardSupport
