import BoardSupport.Fault
import BoardSupport.Register.Field

/-!
The line settings of a UART and the control word that holds them. Writing a configuration keeps the
low 24 bits of its divisor; reading a control word fails on a reserved encoding.
-/
namespace BoardSupport.Uart

/-- The character width on the wire. -/
inductive DataBits
  | five | six | seven | eight | nine
  deriving DecidableEq, Repr

namespace DataBits

def code : DataBits → UInt32
  | .five => 0
  | .six => 1
  | .seven => 2
  | .eight => 3
  | .nine => 4

def all : List DataBits := [.five, .six, .seven, .eight, .nine]

/-- The width with this encoding, unless the encoding is reserved. -/
def ofCode (code : UInt32) : Except DriverError DataBits :=
  match code with
  | 0 => .ok .five
  | 1 => .ok .six
  | 2 => .ok .seven
  | 3 => .ok .eight
  | 4 => .ok .nine
  | _ => .error .invalidField

def count (d : DataBits) : UInt32 := d.code + 5

def name : DataBits → String
  | .five => "Five"
  | .six => "Six"
  | .seven => "Seven"
  | .eight => "Eight"
  | .nine => "Nine"

end DataBits

/-- The parity bit after each character. -/
inductive Parity
  | none | even | odd
  deriving DecidableEq, Repr

namespace Parity

def code : Parity → UInt32
  | .none => 0
  | .even => 1
  | .odd => 2

def all : List Parity := [.none, .even, .odd]

def ofCode (code : UInt32) : Except DriverError Parity :=
  match code with
  | 0 => .ok .none
  | 1 => .ok .even
  | 2 => .ok .odd
  | _ => .error .invalidField

def name : Parity → String
  | .none => "None"
  | .even => "Even"
  | .odd => "Odd"

end Parity

/-- The length of the stop bit. -/
inductive StopBits
  | one | oneAndHalf | two
  deriving DecidableEq, Repr

namespace StopBits

def code : StopBits → UInt32
  | .one => 0
  | .oneAndHalf => 1
  | .two => 2

def all : List StopBits := [.one, .oneAndHalf, .two]

def ofCode (code : UInt32) : Except DriverError StopBits :=
  match code with
  | 0 => .ok .one
  | 1 => .ok .oneAndHalf
  | 2 => .ok .two
  | _ => .error .invalidField

def name : StopBits → String
  | .one => "One"
  | .oneAndHalf => "OneAndHalf"
  | .two => "Two"

end StopBits

/-- The handshake on the control lines. -/
inductive FlowControl
  | none | rtsCts
  deriving DecidableEq, Repr

namespace FlowControl

def code : FlowControl → UInt32
  | .none => 0
  | .rtsCts => 1

def all : List FlowControl := [.none, .rtsCts]

def ofBit (set : Bool) : FlowControl := if set then .rtsCts else .none

def name : FlowControl → String
  | .none => "None"
  | .rtsCts => "RtsCts"

end FlowControl

def dataBitsField : Field := .span 29 3

def parityField : Field := .span 27 2

def stopBitsField : Field := .span 25 2

def flowControlField : Field := .span 24 1

def cyclesPerBitField : Field := .span 0 24

/-- The divisor for a line rate. A rate of zero is a fault. -/
def divisor (clockHz baud : UInt32) : Except Fault UInt32 :=
  if baud = 0 then .error .divideByZero else .ok (clockHz / baud)

structure Config where
  dataBits : DataBits := .eight
  parity : Parity := .none
  stopBits : StopBits := .one
  flowControl : FlowControl := .none
  /-- Core clock cycles for each bit on the wire. -/
  cyclesPerBit : UInt32
  deriving DecidableEq, Repr

namespace Config

/-- Eight data bits, no parity, one stop bit, no handshake, at the given line rate. -/
def atRate (clockHz baud : UInt32) : Except Fault Config := do
  return { cyclesPerBit := ← divisor clockHz baud }

def encode (c : Config) : UInt32 :=
  dataBitsField.put c.dataBits.code ||| parityField.put c.parity.code
    ||| stopBitsField.put c.stopBits.code ||| flowControlField.put c.flowControl.code
    ||| cyclesPerBitField.put c.cyclesPerBit

/-- The settings in a control word. Data bits, parity and stop bits may hold reserved encodings. -/
def decode (word : UInt32) : Except DriverError Config := do
  let dataBits ← DataBits.ofCode (dataBitsField.get word)
  let parity ← Parity.ofCode (parityField.get word)
  let stopBits ← StopBits.ofCode (stopBitsField.get word)
  return {
    dataBits, parity, stopBits
    flowControl := .ofBit (flowControlField.isSet word)
    cyclesPerBit := cyclesPerBitField.get word }

end Config

end BoardSupport.Uart
