import BoardSupport.Fifo.Register
import BoardSupport.Fifo.Status
import BoardSupport.Program.Access
import BoardSupport.Uart.Config

/-!
The polled UART driver. Transfers wait on the FIFO flags; settings are patched through the aliases of
the control word, so each setter touches only its own bits.
-/
namespace BoardSupport

structure Uart where
  block : Block
  deriving DecidableEq, Repr

namespace Uart

open Fifo (Side Status Flag RxError RxErrors)

def readWord (u : Uart) (r : Fifo.Register) : Program UInt32 := u.block.read r.offset

def writeWord (u : Uart) (r : Fifo.Register) (value : UInt32) : Program Unit :=
  u.block.write r.offset value

/-! ## Line settings -/

def init (u : Uart) (config : Config) : Program Unit := u.writeWord .control config.encode

def config (u : Uart) : Program (Except DriverError Config) := do
  return Config.decode (← u.readWord .control)

def setControlField (u : Uart) (field : Field) (value : UInt32) : Program Unit :=
  u.block.updateField Fifo.Register.controlSet.offset Fifo.Register.controlClear.offset field value

def controlField (u : Uart) (field : Field) : Program UInt32 := do
  return field.get (← u.readWord .control)

def setDataBits (u : Uart) (d : DataBits) : Program Unit := u.setControlField dataBitsField d.code

def dataBits (u : Uart) : Program (Except DriverError DataBits) := do
  return DataBits.ofCode (← u.controlField dataBitsField)

def setParity (u : Uart) (p : Parity) : Program Unit := u.setControlField parityField p.code

def parity (u : Uart) : Program (Except DriverError Parity) := do
  return Parity.ofCode (← u.controlField parityField)

def setStopBits (u : Uart) (b : StopBits) : Program Unit := u.setControlField stopBitsField b.code

def stopBits (u : Uart) : Program (Except DriverError StopBits) := do
  return StopBits.ofCode (← u.controlField stopBitsField)

def setFlowControl (u : Uart) (f : FlowControl) : Program Unit :=
  u.setControlField flowControlField f.code

def flowControl (u : Uart) : Program FlowControl := do
  return .ofBit ((← u.controlField flowControlField) != 0)

/-- Changes the divisor; its low 24 bits are kept. -/
def setCyclesPerBit (u : Uart) (cycles : UInt32) : Program Unit :=
  u.setControlField cyclesPerBitField cycles

def cyclesPerBit (u : Uart) : Program UInt32 := u.controlField cyclesPerBitField

def setBaud (u : Uart) (clockHz baud : UInt32) : Program Unit := do
  let cycles ← Program.ofExcept (divisor clockHz baud)
  u.setCyclesPerBit cycles

/-! ## FIFO status -/

def status (u : Uart) (side : Side) : Program Status := do return ⟨← u.readWord (.status side)⟩

def rxErrors (u : Uart) : Program RxErrors := do return .ofStatus (← u.readWord (.status .rx))

def hasFlag (u : Uart) (side : Side) (flag : Flag) : Program Bool := do
  return (← u.status side).has flag

def fillLevel (u : Uart) (side : Side) : Program UInt8 := do return (← u.status side).fillLevel

def watermark (u : Uart) (side : Side) : Program UInt8 := do return (← u.status side).watermark

def hasError (u : Uart) (e : RxError) : Program Bool := do return (← u.rxErrors).has e

def setWatermark (u : Uart) (side : Side) (level : UInt8) : Program Unit :=
  u.block.updateField (Fifo.Register.statusSet side).offset (Fifo.Register.statusClear side).offset
    Fifo.watermarkField level.toUInt32

def clearFifo (u : Uart) (side : Side) : Program Unit :=
  u.writeWord (.statusSet side) Fifo.clearCommand

def clearOverflow (u : Uart) (side : Side) : Program Unit :=
  u.writeWord (.statusClear side) Flag.overflow.mask

def clearErrors (u : Uart) (errors : RxErrors) : Program Unit :=
  u.writeWord (.statusClear .rx) errors.bits

/-! ## Transfers -/

/-- Sends one byte, once the transmit FIFO has room. -/
def writeByte (u : Uart) (byte : UInt8) : Program Unit := do
  Program.waitUntil (do return !(← u.hasFlag .tx .full))
  u.writeWord .data byte.toUInt32

def tryReadByte (u : Uart) : Program (Option UInt8) := do
  if ← u.hasFlag .rx .empty then return none
  else return some (← u.readWord .data).toUInt8

def readByte (u : Uart) : Program UInt8 := Program.poll u.tryReadByte

/-- Takes a byte, or gives up after `maxPolls` readings of an empty FIFO. -/
def readByteWithin (u : Uart) : (maxPolls : Nat) → Program (Except DriverError UInt8)
  | 0 => return .error .timeout
  | maxPolls + 1 => do
    match ← u.tryReadByte with
    | some byte => return .ok byte
    | none => u.readByteWithin maxPolls

def writeBlock (u : Uart) : List UInt8 → Program Unit
  | [] => return ()
  | byte :: rest => do
    u.writeByte byte
    u.writeBlock rest

def readBlock (u : Uart) : (count : Nat) → Program (List UInt8)
  | 0 => return []
  | count + 1 => do
    let byte ← u.readByte
    let rest ← u.readBlock count
    return byte :: rest

def writeText (u : Uart) (text : String) : Program Unit := u.writeBlock text.toUTF8.toList

def writeString (u : Uart) (text : String) : Program Unit := do
  u.writeText text
  u.writeByte 0

def carriageReturn : UInt8 := 0x0D

/-- Fills a buffer from `next` up to a carriage return, which is stored as NUL, or to the end of the
buffer. Gives the number of bytes taken and the buffer; the slots after the line keep what they
held. -/
def fillLine (next : Program UInt8) : (buffer : List UInt8) → Program (Nat × List UInt8)
  | [] => return (0, [])
  | _ :: rest => do
    let byte ← next
    if byte = carriageReturn then return (1, 0 :: rest)
    else
      let (count, filled) ← fillLine next rest
      return (count + 1, byte :: filled)

/-- Takes bytes up to a carriage return or until the buffer is full. -/
def readLine (u : Uart) (buffer : List UInt8) : Program (Nat × List UInt8) :=
  fillLine u.readByte buffer

end Uart

end BoardSupport
