import BoardSupport.Spi.Driver

/-!
The operations of the SPI driver as data. A transaction carries the operations made inside it.
-/
namespace BoardSupport.Spi

open Fifo (Side Status Flag)

inductive Setting
  | outputs (enabled : Bool)
  | role (value : Role)
  | mode (value : Mode)
  | clockDivider (exponent : UInt8)
  | activeSlave (slave : UInt8)
  | softwareSelect (software : Bool)
  | pulseMode (enabled : Bool)
  /-- Drives the slave select low, or high. -/
  | select (asserted : Bool)
  deriving DecidableEq, Repr

inductive ControlQuery
  | outputsEnabled | role | resetRole | isConfigFixed | isMaster
  | mode | clockDivider | sckHz (clockHz : UInt32) | activeSlave
  | softwareSelectEnabled | pulseMode | selectAsserted
  deriving DecidableEq, Repr

inductive StatusQuery
  | status (side : Side)
  | flag (side : Side) (flag : Flag)
  | ready
  | underflow
  | enabled (side : Side)
  deriving DecidableEq, Repr

inductive Command
  | init (config : Config)
  | set (setting : Setting)
  | get (query : ControlQuery)
  | query (query : StatusQuery)
  | setEnabled (side : Side) (enabled : Bool)
  | clearOverflow (side : Side)
  | clearRxUnderflow
  | setWatermark (side : Side) (level : UInt8)
  | flushRx
  | writeByte (byte : UInt8)
  | readByte
  | transferByte (byte : UInt8)
  | beginTransaction
  | endTransaction
  | withTransaction (body : List Command)
  | writeBlock (bytes : List UInt8)
  | readBlock (buffer : List UInt8)

inductive Answer
  | done
  | flag (value : Bool)
  | role (value : Role)
  | mode (value : Mode)
  | small (value : UInt8)
  | hertz (value : UInt32)
  | status (status : Status)
  | byte (value : UInt8)
  | sent (result : Except DriverError Unit)
  | received (result : Except DriverError Unit) (buffer : List UInt8)
  /-- The answers of a transaction's body. -/
  | transaction (answers : List Answer)

def change (s : Spi) : Setting → Program Unit
  | .outputs b => s.setOutputs b
  | .role r => s.setRole r
  | .mode m => s.setMode m
  | .clockDivider e => s.setClockDivider e
  | .activeSlave n => s.setActiveSlave n
  | .softwareSelect b => s.setSoftwareSelect b
  | .pulseMode b => s.setPulseMode b
  | .select true => s.assertSelect
  | .select false => s.deassertSelect

def readControl (s : Spi) : ControlQuery → Program Answer
  | .outputsEnabled => do return .flag (← s.outputsEnabled)
  | .role => do return .role (← s.role)
  | .resetRole => do return .role (← s.resetRole)
  | .isConfigFixed => do return .flag (← s.isConfigFixed)
  | .isMaster => do return .flag (← s.isMaster)
  | .mode => do return .mode (← s.mode)
  | .clockDivider => do return .small (← s.clockDivider)
  | .sckHz hz => do return .hertz (← s.sckHz hz)
  | .activeSlave => do return .small (← s.activeSlave)
  | .softwareSelectEnabled => do return .flag (← s.softwareSelectEnabled)
  | .pulseMode => do return .flag (← s.pulseMode)
  | .selectAsserted => do return .flag (← s.selectAsserted)

def readStatus (s : Spi) : StatusQuery → Program Answer
  | .status side => do return .status (← s.status side)
  | .flag side f => do return .flag (← s.hasFlag side f)
  | .ready => do return .flag (← s.txReady)
  | .underflow => do return .flag (← s.rxUnderflow)
  | .enabled side => do return .flag (← s.isEnabled side)

mutual

def perform (s : Spi) : Command → Program Answer
  | .init c => do s.init c; return .done
  | .set c => do s.change c; return .done
  | .get q => s.readControl q
  | .query q => s.readStatus q
  | .setEnabled side true => do s.enable side; return .done
  | .setEnabled side false => do s.disable side; return .done
  | .clearOverflow side => do s.clearOverflow side; return .done
  | .clearRxUnderflow => do s.clearRxUnderflow; return .done
  | .setWatermark side level => do s.setWatermark side level; return .done
  | .flushRx => do s.flushRx; return .done
  | .writeByte b => do s.writeByte b; return .done
  | .readByte => do return .byte (← s.readByte)
  | .transferByte b => do return .byte (← s.transferByte b)
  | .beginTransaction => do s.beginTransaction; return .done
  | .endTransaction => do s.endTransaction; return .done
  | .withTransaction body => do return .transaction (← s.withTransaction (s.performAll body))
  | .writeBlock bytes => do return .sent (← s.writeBlock bytes)
  | .readBlock buffer => do
    let (result, filled) ← s.readBlock buffer
    return .received result filled

def performAll (s : Spi) : List Command → Program (List Answer)
  | [] => return []
  | c :: rest => do
    let answer ← s.perform c
    let answers ← s.performAll rest
    return answer :: answers

end

end BoardSupport.Spi
