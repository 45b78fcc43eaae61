import BoardSupport.Program.Basic
import BoardSupport.Register.Field

/-!
Accesses as programs: registers of a block, CSRs, delays. Reading a data register takes an entry and
writing an alias acts at once, so each read and each write is exactly one request. What can be done
to the registers of any block is also given as data, `Block.Command`.
-/
namespace BoardSupport

namespace Block

def read (b : Block) (offset : Nat) : Program UInt32 := Program.request (.load b offset)

def write (b : Block) (offset : Nat) (value : UInt32) : Program Unit :=
  Program.request (.store b offset value)

/-- Rewrites one field through a pair of aliases: clears the whole field, then sets the ones of the
new value. Bits outside the field are never written, so what the hardware changes by itself is
kept. -/
def updateField (b : Block) (setOffset clearOffset : Nat) (field : Field) (value : UInt32) :
    Program Unit := do
  b.write clearOffset field.mask
  b.write setOffset (field.put value)

/-- An operation on the registers of a block, whatever the block is. -/
inductive Command
  | read (offset : Nat)
  | write (offset : Nat) (value : UInt32)
  | updateField (setOffset clearOffset : Nat) (shift width value : UInt32)
  deriving DecidableEq, Repr

/-- Carries out an operation; only a read gives a value. A field that does not fit in a word is
refused before any access. -/
def perform (b : Block) : Command → Program (Option UInt32)
  | .read offset => do return some (← b.read offset)
  | .write offset value => do b.write offset value; return none
  | .updateField setOffset clearOffset shift width value => do
    let field ← Program.ofExcept (Field.make shift width)
    b.updateField setOffset clearOffset field value
    return none

end Block

namespace Csr

def read (c : Csr) : Program UInt32 := Program.request (.readCsr c)

def write (c : Csr) (value : UInt32) : Program (Except DriverError Unit) :=
  Program.request (.updateCsr c (.write value))

def setBits (c : Csr) (mask : UInt32) : Program (Except DriverError Unit) :=
  Program.request (.updateCsr c (.setBits mask))

def clearBits (c : Csr) (mask : UInt32) : Program (Except DriverError Unit) :=
  Program.request (.updateCsr c (.clearBits mask))

end Csr

def delay (cycles : UInt32) : Program Unit := Program.request (.delay cycles)

def waitForInterrupt : Program Unit := Program.request .waitForInterrupt

end BoardSupport
