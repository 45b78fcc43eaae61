import BoardSupport.Text.Hexadecimal

/-!
Why an operation gives no value. A `Fault` ends the program that meets it; a `DriverError` is an
answer that its caller can act on.
-/
namespace BoardSupport

/-- A fault ends the running program at once; what it did before stays done. -/
inductive Fault
  | divideByZero
  | addOverflow
  | multiplyOverflow
  /-- A left shift by the width of the word or more. -/
  | shiftOverflow
  /-- A bit field that is empty or leaves its word. -/
  | fieldBounds
  /-- A read of the simulated timer where it has no register. -/
  | timerRead (offset : Nat)
  /-- A write of the simulated timer where it has no register. -/
  | timerWrite (offset : Nat)
  /-- An access of the simulated random number generator away from its only register. -/
  | trngOffset (offset : Nat)
  deriving DecidableEq, Repr

/-- What is said when a fault ends a program. -/
def Fault.message : Fault → String
  | .divideByZero => "attempt to divide by zero"
  | .addOverflow => "attempt to add with overflow"
  | .multiplyOverflow => "attempt to multiply with overflow"
  | .shiftOverflow => "attempt to shift left with overflow"
  | .fieldBounds => "assertion failed: width > 0 && shift + width <= 32"
  | .timerRead offset => "timer read at unmapped offset " ++ Text.hex offset
  | .timerWrite offset => "timer write at unmapped offset " ++ Text.hex offset
  | .trngOffset offset =>
    "assertion `left == right` failed\n  left: " ++ toString offset ++ "\n right: 0"

/-- An operation that was refused, or that did not finish, and left the hardware usable. -/
inductive DriverError
  /-- The block cannot do this in its present role. -/
  | unsupported
  | readOnlyCsr
  /-- No byte arrived in the polls allowed. -/
  | timeout
  | invalidField
  deriving DecidableEq, Repr

def DriverError.name : DriverError → String
  | .unsupported => "Unsupported"
  | .readOnlyCsr => "ReadOnlyCsr"
  | .timeout => "Timeout"
  | .invalidField => "InvalidField"

def DriverError.all : List DriverError := [.unsupported, .readOnlyCsr, .timeout, .invalidField]

end BoardSupport
