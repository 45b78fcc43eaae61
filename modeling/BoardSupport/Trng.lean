import BoardSupport.Program.Access

/-!
The random number generator: one control word with the enable, a mark for valid data, and the data
byte. Reading a valid word takes its byte.
-/
namespace BoardSupport

structure Trng where
  block : Block
  deriving DecidableEq, Repr

namespace Trng

def controlOffset : Nat := 0x0

/-- The data of the word is valid. -/
def validField : Field := .bit 31

/-- The entropy source is on. -/
def enableField : Field := .bit 30

/-- The generator is a model that gives the same bytes each time. -/
def simulatedField : Field := .bit 29

def dataField : Field := .lowByte

/-- The cycles that the source needs to settle after each change of its enable. -/
def settleCycles : UInt32 := 128

def readControl (t : Trng) : Program UInt32 := t.block.read controlOffset

def writeControl (t : Trng) (value : UInt32) : Program Unit := t.block.write controlOffset value

/-- Switches the source off and on again, with time to settle after both. -/
def enable (t : Trng) : Program Unit := do
  t.writeControl 0
  delay settleCycles
  t.writeControl enableField.mask
  delay settleCycles

def disable (t : Trng) : Program Unit := t.writeControl 0

def isEnabled (t : Trng) : Program Bool := do return enableField.isSet (← t.readControl)

def isSimulated (t : Trng) : Program Bool := do return simulatedField.isSet (← t.readControl)

/-- The next random byte. Waits for as long as no word is valid, which is forever while the source
is off. -/
def getByte (t : Trng) : Program UInt8 :=
  Program.poll do
    let word ← t.readControl
    return if validField.isSet word then some (dataField.get word).toUInt8 else none

def getBytes (t : Trng) : (count : Nat) → Program (List UInt8)
  | 0 => return []
  | count + 1 => do
    let byte ← t.getByte
    let rest ← t.getBytes count
    return byte :: rest

inductive Command
  | enable
  | disable
  | isEnabled
  | isSimulated
  | getByte
  | getBytes (count : Nat)
  deriving DecidableEq, Repr

inductive Answer
  | done
  | flag (value : Bool)
  | byte (value : UInt8)
  | bytes (values : List UInt8)
  deriving DecidableEq, Repr

def perform (t : Trng) : Command → Program Answer
  | .enable => do t.enable; return .done
  | .disable => do t.disable; return .done
  | .isEnabled => do return .flag (← t.isEnabled)
  | .isSimulated => do return .flag (← t.isSimulated)
  | .getByte => do return .byte (← t.getByte)
  | .getBytes n => do return .bytes (← t.getBytes n)

end Trng

end BoardSupport
