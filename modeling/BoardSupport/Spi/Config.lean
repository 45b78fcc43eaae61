import BoardSupport.Register.Field

/-!
The control word of an SPI controller: role, clock, slave line and the select lines.
-/
namespace BoardSupport.Spi

/-- Which side drives the clock. -/
inductive Role
  | master | slave
  deriving DecidableEq, Repr

namespace Role

def ofBit (set : Bool) : Role := if set then .master else .slave

def all : List Role := [.master, .slave]

def name : Role → String
  | .master => "Master"
  | .slave => "Slave"

end Role

/-- Clock polarity and phase, numbered the usual way. -/
inductive Mode
  | mode0 | mode1 | mode2 | mode3
  deriving DecidableEq, Repr

namespace Mode

def code : Mode → UInt32
  | .mode0 => 0
  | .mode1 => 1
  | .mode2 => 2
  | .mode3 => 3

/-- The mode with a number, of which the two lowest bits count. -/
def ofCode (code : UInt32) : Mode :=
  match (code &&& 3).toNat with
  | 0 => .mode0
  | 1 => .mode1
  | 2 => .mode2
  | _ => .mode3

def all : List Mode := [.mode0, .mode1, .mode2, .mode3]

def name : Mode → String
  | .mode0 => "Mode0"
  | .mode1 => "Mode1"
  | .mode2 => "Mode2"
  | .mode3 => "Mode3"

end Mode

def outputEnableField : Field := .bit 24

/-- The role cannot be changed. -/
def configFixedField : Field := .bit 21

def resetRoleField : Field := .bit 20

/-- The role that software asks for. -/
def masterField : Field := .bit 16

def pulseModeField : Field := .bit 14

def softwareSelectField : Field := .bit 13

/-- The level of the slave select; low selects. -/
def selectLevelField : Field := .bit 12

def activeSlaveField : Field := .span 8 2

def modeField : Field := .span 4 2

def clockDividerField : Field := .span 0 4

structure Config where
  role : Role := .master
  mode : Mode
  /-- The bus clock is the core clock divided by two to this power plus one; four bits. -/
  clockDivider : UInt8
  /-- The slave line that transactions drive; two bits. -/
  slave : UInt8
  outputsEnabled : Bool := true
  deriving DecidableEq, Repr

/-- The control word for the setup: the hardware drives the slave select, and it is not asserted. -/
def Config.encode (c : Config) : UInt32 :=
  outputEnableField.put c.outputsEnabled.toUInt32
    ||| masterField.put (c.role == .master).toUInt32
    ||| selectLevelField.mask
    ||| activeSlaveField.put c.slave.toUInt32
    ||| modeField.put c.mode.code
    ||| clockDividerField.put c.clockDivider.toUInt32

/-- The role that a control word puts in force: the reset role when it is fixed, and otherwise the
one that software asked for. -/
def effectiveRole (control : UInt32) : Role :=
  .ofBit (if configFixedField.isSet control then resetRoleField.isSet control
    else masterField.isSet control)

end BoardSupport.Spi
