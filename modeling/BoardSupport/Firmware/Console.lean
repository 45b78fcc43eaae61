import BoardSupport.Csr.Interrupts
import BoardSupport.Firmware.Settings

/-!
The console of the firmware on its first UART. The UART is used only with interrupts masked, so a
trap handler that prints never cuts into a line, and input is taken one poll at a time, so that
interrupts are served while a line is awaited.
-/
namespace BoardSupport.Firmware

/-- Uses the console with interrupts masked. Gives nothing if they cannot be masked. -/
def withConsole {α : Type} (use : Uart → Program α) : Program (Option α) := do
  match ← Interrupts.criticalSection (use console) with
  | .ok v => return some v
  | .error _ => return none

/-- Sets the line up, drops what was received before, and starts to hear log records. -/
def initConsole (config : Uart.Config) : Program Unit := do
  let _ ← withConsole fun uart => do
    uart.init config
    uart.clearFifo .rx
  Program.request (.setLogFilter logFilter)

/-- Sends text to the console in one masked section. -/
def print (text : String) : Program Unit := do
  let _ ← withConsole fun uart => uart.writeText text

def lineEnd : String := "\r\n"

/-- Sends text and then a line end, each in a section of its own. -/
def printLine (text : String) : Program Unit := do
  print text
  print lineEnd

def inputPending : Program Bool := do
  let pending ← withConsole fun uart => do return !(← uart.hasFlag .rx .empty)
  return pending.getD false

/-- Takes a byte from the console, once there is one. Interrupts are masked only for each poll. -/
def readConsoleByte : Program UInt8 :=
  Program.poll do
    let received ← withConsole fun uart => uart.tryReadByte
    return received.join

def readLine (buffer : List UInt8) : Program (Nat × List UInt8) :=
  Uart.fillLine readConsoleByte buffer

/-- Prints a log record as a line of its own, in one masked section. -/
def printRecord (record : LogRecord) : Program Unit := print (record.line ++ lineEnd)

end BoardSupport.Firmware
