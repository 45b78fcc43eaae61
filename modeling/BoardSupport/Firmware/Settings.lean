import BoardSupport.Gpio
import BoardSupport.MemoryMap
import BoardSupport.Timer
import BoardSupport.Trap.Router
import BoardSupport.Trng
import BoardSupport.Uart.Driver

/-!
How the board of the firmware image is set up.
-/
namespace BoardSupport.Firmware

/-- The core clock, which the timer counts. -/
def clockHz : UInt32 := 32000000

def consoleBaud : UInt32 := 9600

/-- The line settings of the console: eight data bits, even parity, one stop bit. -/
def consoleConfig : Uart.Config := { parity := .even, cyclesPerBit := clockHz / consoleBaud }

/-- The timer cycles between two ticks: one second. -/
def tickPeriod : UInt64 := clockHz.toUInt64

def gpioOutputs : UInt32 := 0xFFFFFFFF

/-- The log records that reach the console after reset. -/
def logFilter : LogFilter := .upTo .info

def console : Uart := ⟨MemoryMap.target.uart0⟩

def pins : Gpio := ⟨MemoryMap.target.gpio⟩

def timer : Timer := ⟨MemoryMap.target.timer⟩

def router : Router := ⟨timer, tickPeriod⟩

end BoardSupport.Firmware
