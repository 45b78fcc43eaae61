import BoardSupport.Fifo.Register
import BoardSupport.Fifo.Status
import BoardSupport.Program.Access
import BoardSupport.Spi.Config

/-!
The SPI driver. Block transfers are framed as transactions, which hand the slave select to software
for their duration and back to the hardware afterwards.
-/
namespace BoardSupport

structure Spi where
  block : Block
  deriving DecidableEq, Repr

namespace Spi

open Fifo (Side Status Flag)

/-- The automatic transfer of a FIFO is enabled. -/
def enableMask : UInt32 := 0x80000000

/-- No transfer is in flight. -/
def readyMask : UInt32 := 0x100000

/-- Data was read while the receive FIFO was empty. -/
def underflowMask : UInt32 := 0x100000

def readWord (s : Spi) (r : Fifo.Register) : Program UInt32 := s.block.read r.offset

def writeWord (s : Spi) (r : Fifo.Register) (value : UInt32) : Program Unit :=
  s.block.write r.offset value

/-! ## Control -/

def init (s : Spi) (config : Config) : Program Unit := s.writeWord .control config.encode

def control (s : Spi) : Program UInt32 := s.readWord .control

def setControlBits (s : Spi) (field : Field) (set : Bool) : Program Unit :=
  s.writeWord (if set then .controlSet else .controlClear) field.mask

def setControlField (s : Spi) (field : Field) (value : UInt32) : Program Unit :=
  s.block.updateField Fifo.Register.controlSet.offset Fifo.Register.controlClear.offset field value

/-- Lets the controller drive its output pins, or not. -/
def setOutputs (s : Spi) (enabled : Bool) : Program Unit :=
  s.setControlBits outputEnableField enabled

def outputsEnabled (s : Spi) : Program Bool := do return outputEnableField.isSet (← s.control)

/-- Asks for a role; the hardware does not follow while the role is fixed. -/
def setRole (s : Spi) (role : Role) : Program Unit := s.setControlBits masterField (role == .master)

def isConfigFixed (s : Spi) : Program Bool := do return configFixedField.isSet (← s.control)

def resetRole (s : Spi) : Program Role := do return .ofBit (resetRoleField.isSet (← s.control))

def role (s : Spi) : Program Role := do return effectiveRole (← s.control)

def isMaster (s : Spi) : Program Bool := do return (← s.role) == .master

def setMode (s : Spi) (mode : Mode) : Program Unit := s.setControlField modeField mode.code

def mode (s : Spi) : Program Mode := do return .ofCode (modeField.get (← s.control))

/-- Changes the exponent of the clock divider; its low four bits are kept. -/
def setClockDivider (s : Spi) (exponent : UInt8) : Program Unit :=
  s.setControlField clockDividerField exponent.toUInt32

def clockDivider (s : Spi) : Program UInt8 := do
  return (clockDividerField.get (← s.control)).toUInt8

def sckHz (s : Spi) (clockHz : UInt32) : Program UInt32 := do
  return clockHz >>> ((← s.clockDivider) + 1).toUInt32

/-- Chooses the slave line that transactions drive; its low two bits are kept. -/
def setActiveSlave (s : Spi) (slave : UInt8) : Program Unit :=
  s.setControlField activeSlaveField slave.toUInt32

def activeSlave (s : Spi) : Program UInt8 := do
  return (activeSlaveField.get (← s.control)).toUInt8

/-- Gives the slave select to software, or back to the controller. -/
def setSoftwareSelect (s : Spi) (software : Bool) : Program Unit :=
  s.setControlBits softwareSelectField software

def softwareSelectEnabled (s : Spi) : Program Bool := do
  return softwareSelectField.isSet (← s.control)

def setPulseMode (s : Spi) (enabled : Bool) : Program Unit :=
  s.setControlBits pulseModeField enabled

def pulseMode (s : Spi) : Program Bool := do return pulseModeField.isSet (← s.control)

/-- Drives the slave select low. -/
def assertSelect (s : Spi) : Program Unit := s.setControlBits selectLevelField false

/-- Drives the slave select high. -/
def deassertSelect (s : Spi) : Program Unit := s.setControlBits selectLevelField true

def selectAsserted (s : Spi) : Program Bool := do return !selectLevelField.isSet (← s.control)

/-! ## FIFO status -/

def status (s : Spi) (side : Side) : Program Status := do return ⟨← s.readWord (.status side)⟩

def hasFlag (s : Spi) (side : Side) (flag : Flag) : Program Bool := do
  return (← s.status side).has flag

/-- Whether any bit of a mask is set in a status word. -/
def hasStatusBit (s : Spi) (side : Side) (mask : UInt32) : Program Bool := do
  return (← s.readWord (.status side)) &&& mask != 0

def txReady (s : Spi) : Program Bool := s.hasStatusBit .tx readyMask

def rxUnderflow (s : Spi) : Program Bool := s.hasStatusBit .rx underflowMask

def isEnabled (s : Spi) (side : Side) : Program Bool := s.hasStatusBit side enableMask

/-- Starts a side: sending what the FIFO holds, or keeping what arrives. -/
def enable (s : Spi) (side : Side) : Program Unit := s.writeWord (.statusSet side) enableMask

def disable (s : Spi) (side : Side) : Program Unit := s.writeWord (.statusClear side) enableMask

def clearOverflow (s : Spi) (side : Side) : Program Unit :=
  s.writeWord (.statusClear side) Flag.overflow.mask

def clearRxUnderflow (s : Spi) : Program Unit := s.writeWord (.statusClear .rx) underflowMask

def setWatermark (s : Spi) (side : Side) (level : UInt8) : Program Unit :=
  s.block.updateField (Fifo.Register.statusSet side).offset (Fifo.Register.statusClear side).offset
    Fifo.watermarkField level.toUInt32

/-! ## Transfers -/

/-- Reads the receive FIFO until it is empty. -/
def flushRx (s : Spi) : Program Unit :=
  Program.poll do
    if ← s.hasFlag .rx .empty then return some ()
    else
      let _ ← s.readWord .data
      return none

def waitTxReady (s : Spi) : Program Unit := Program.waitUntil s.txReady

/-- Queues one byte, once the transmit FIFO has room. -/
def writeByte (s : Spi) (byte : UInt8) : Program Unit := do
  Program.waitUntil (do return !(← s.hasFlag .tx .full))
  s.writeWord .data byte.toUInt32

/-- Takes one byte, once there is one. -/
def readByte (s : Spi) : Program UInt8 := do
  Program.waitUntil (do return !(← s.hasFlag .rx .empty))
  return (← s.readWord .data).toUInt8

/-- Sends one byte and takes the byte that comes in with it. Outside a transaction nothing is sent,
and this waits forever. -/
def transferByte (s : Spi) (byte : UInt8) : Program UInt8 := do
  s.writeByte byte
  s.readByte

/-- Waits for the bus, drops stale bytes, enables sending and selects the slave. -/
def beginTransaction (s : Spi) : Program Unit := do
  s.waitTxReady
  s.flushRx
  s.enable .tx
  s.setSoftwareSelect true
  s.assertSelect

/-- Waits for the last byte to leave, then gives the slave select back. -/
def endTransaction (s : Spi) : Program Unit := do
  s.waitTxReady
  s.deassertSelect
  s.setSoftwareSelect false

def withTransaction (s : Spi) {α : Type} (body : Program α) : Program α := do
  s.beginTransaction
  let result ← body
  s.endTransaction
  return result

def writeBytes (s : Spi) : List UInt8 → Program Unit
  | [] => return ()
  | byte :: rest => do
    s.writeByte byte
    s.writeBytes rest

/-- Takes `count` bytes, sending a zero for each. -/
def readBytes (s : Spi) : (count : Nat) → Program (List UInt8)
  | 0 => return []
  | count + 1 => do
    let byte ← s.transferByte 0
    let rest ← s.readBytes count
    return byte :: rest

/-- Runs `body` if the controller is the master, and restores the control word afterwards either
way. A slave cannot start a transfer, which is said in a warning. -/
def asMaster (s : Spi) {α : Type} (warning : String) (body : Program α) :
    Program (Except DriverError α) := do
  let snapshot ← s.control
  if ← s.isMaster then
    let result ← body
    s.writeWord .control snapshot
    return .ok result
  else
    Program.report .warn .spi (pure warning)
    s.writeWord .control snapshot
    return .error .unsupported

/-- Sends bytes as one transaction, with receiving disabled. -/
def writeBlock (s : Spi) (bytes : List UInt8) : Program (Except DriverError Unit) :=
  s.asMaster "spi: block write requested in slave mode" do
    s.beginTransaction
    s.disable .rx
    s.writeBytes bytes
    s.endTransaction
    s.enable .rx

/-- Fills a buffer in one transaction, sending a zero for each byte. A slave leaves the buffer as it
was. -/
def readBlock (s : Spi) (buffer : List UInt8) :
    Program (Except DriverError Unit × List UInt8) := do
  let result ← s.asMaster "spi: block read requested in slave mode" do
    s.beginTransaction
    s.enable .rx
    let bytes ← s.readBytes buffer.length
    s.endTransaction
    return bytes
  match result with
  | .ok bytes => return (.ok (), bytes)
  | .error e => return (.error e, buffer)

end Spi

end BoardSupport
