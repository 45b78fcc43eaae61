import BoardSupport.Program.Access

/-!
General-purpose pins: a data word, and an enable word whose ones make outputs.
-/
namespace BoardSupport

/-- A block of 32 pins. -/
structure Gpio where
  block : Block
  deriving DecidableEq, Repr

namespace Gpio

inductive Register
  | data | outputEnable
  deriving DecidableEq, Repr

def Register.offset : Register → Nat
  | .data => 0x0
  | .outputEnable => 0x4

def write (g : Gpio) (value : UInt32) : Program Unit := g.block.write Register.data.offset value

def read (g : Gpio) : Program UInt32 := g.block.read Register.data.offset

def setOutputEnable (g : Gpio) (mask : UInt32) : Program Unit :=
  g.block.write Register.outputEnable.offset mask

def outputEnable (g : Gpio) : Program UInt32 := g.block.read Register.outputEnable.offset

/-- Inverts the pins of a mask. This reads and then writes the data word, so a handler that drives
the same pins in between is overruled. -/
def toggle (g : Gpio) (mask : UInt32) : Program Unit := do
  let value ← g.read
  g.write (value ^^^ mask)

inductive Command
  | write (value : UInt32)
  | read
  | setOutputEnable (mask : UInt32)
  | outputEnable
  | toggle (mask : UInt32)
  deriving DecidableEq, Repr

/-- Carries out an operation; those that only write give nothing. -/
def perform (g : Gpio) : Command → Program (Option UInt32)
  | .write v => do g.write v; return none
  | .read => do return some (← g.read)
  | .setOutputEnable m => do g.setOutputEnable m; return none
  | .outputEnable => do return some (← g.outputEnable)
  | .toggle m => do g.toggle m; return none

end Gpio

end BoardSupport
