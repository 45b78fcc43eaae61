import BoardSupport.Uart.Driver

/-!
The operations of the UART driver as data, in the groups that behave alike: line settings, status
queries, acknowledgements and transfers.
-/
namespace BoardSupport.Uart

open Fifo (Side Status Flag RxError RxErrors)

inductive Setting
  | dataBits (value : DataBits)
  | parity (value : Parity)
  | stopBits (value : StopBits)
  | flowControl (value : FlowControl)
  | cyclesPerBit (value : UInt32)
  | baud (clockHz rate : UInt32)
  deriving DecidableEq, Repr

inductive SettingQuery
  | config | dataBits | parity | stopBits | flowControl | cyclesPerBit
  deriving DecidableEq, Repr

inductive StatusQuery
  | status (side : Side)
  | errors
  | flag (side : Side) (flag : Flag)
  | fillLevel (side : Side)
  | watermark (side : Side)
  | error (error : RxError)
  deriving DecidableEq, Repr

inductive Transfer
  | writeByte (byte : UInt8)
  | writeBlock (bytes : List UInt8)
  | writeString (text : String)
  | writeText (text : String)
  | readByte
  | tryReadByte
  | readByteWithin (maxPolls : Nat)
  | readBlock (count : Nat)
  | readLine (buffer : List UInt8)
  deriving DecidableEq, Repr

inductive Command
  | init (config : Config)
  | set (setting : Setting)
  | get (query : SettingQuery)
  | query (query : StatusQuery)
  | setWatermark (side : Side) (level : UInt8)
  | clearFifo (side : Side)
  | clearOverflow (side : Side)
  | clearErrors (errors : RxErrors)
  | transfer (transfer : Transfer)
  deriving DecidableEq, Repr

inductive Answer
  | done
  | config (result : Except DriverError Config)
  | dataBits (result : Except DriverError DataBits)
  | parity (result : Except DriverError Parity)
  | stopBits (result : Except DriverError StopBits)
  | flowControl (value : FlowControl)
  | cyclesPerBit (value : UInt32)
  | status (status : Status)
  | errors (errors : RxErrors)
  | flag (value : Bool)
  | level (value : UInt8)
  | byte (value : UInt8)
  | maybeByte (value : Option UInt8)
  | timedByte (result : Except DriverError UInt8)
  | bytes (values : List UInt8)
  | line (count : Nat) (buffer : List UInt8)

def change (u : Uart) : Setting → Program Unit
  | .dataBits v => u.setDataBits v
  | .parity v => u.setParity v
  | .stopBits v => u.setStopBits v
  | .flowControl v => u.setFlowControl v
  | .cyclesPerBit v => u.setCyclesPerBit v
  | .baud clockHz rate => u.setBaud clockHz rate

def readSetting (u : Uart) : SettingQuery → Program Answer
  | .config => do return .config (← u.config)
  | .dataBits => do return .dataBits (← u.dataBits)
  | .parity => do return .parity (← u.parity)
  | .stopBits => do return .stopBits (← u.stopBits)
  | .flowControl => do return .flowControl (← u.flowControl)
  | .cyclesPerBit => do return .cyclesPerBit (← u.cyclesPerBit)

def readStatus (u : Uart) : StatusQuery → Program Answer
  | .status side => do return .status (← u.status side)
  | .errors => do return .errors (← u.rxErrors)
  | .flag side f => do return .flag (← u.hasFlag side f)
  | .fillLevel side => do return .level (← u.fillLevel side)
  | .watermark side => do return .level (← u.watermark side)
  | .error e => do return .flag (← u.hasError e)

/-- Carries out a transfer. Text that is sent without a terminator is always accepted. -/
def move (u : Uart) : Transfer → Program Answer
  | .writeByte b => do u.writeByte b; return .done
  | .writeBlock bs => do u.writeBlock bs; return .done
  | .writeString s => do u.writeString s; return .done
  | .writeText s => do u.writeText s; return .flag true
  | .readByte => do return .byte (← u.readByte)
  | .tryReadByte => do return .maybeByte (← u.tryReadByte)
  | .readByteWithin n => do return .timedByte (← u.readByteWithin n)
  | .readBlock n => do return .bytes (← u.readBlock n)
  | .readLine buffer => do
    let (count, filled) ← u.readLine buffer
    return .line count filled

def perform (u : Uart) : Command → Program Answer
  | .init c => do u.init c; return .done
  | .set s => do u.change s; return .done
  | .get q => u.readSetting q
  | .query q => u.readStatus q
  | .setWatermark side level => do u.setWatermark side level; return .done
  | .clearFifo side => do u.clearFifo side; return .done
  | .clearOverflow side => do u.clearOverflow side; return .done
  | .clearErrors e => do u.clearErrors e; return .done
  | .transfer t => u.move t

/-- Carries out operations one after another. -/
def performAll (u : Uart) : List Command → Program (List Answer)
  | [] => return []
  | c :: rest => do
    let answer ← u.perform c
    let answers ← u.performAll rest
    return answer :: answers

end BoardSupport.Uart
