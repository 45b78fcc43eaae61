import BoardSupport.Firmware.TrapEntry

/-!
The firmware image: it brings up the pins and the console, reports the boot, starts the timer tick,
and then shows the uptime and echoes input lines.
-/
namespace BoardSupport.Firmware

open Text (hexWord)

/-- The 32-bit word with these bytes, lowest first; bytes past the fourth are dropped. -/
def wordOfBytes (bytes : List UInt8) : UInt32 :=
  bytes.foldr (fun byte word => word <<< 8 ||| byte.toUInt32) 0

/-- Draws a seed from the random number generator and reports it. -/
def reportSeed (trng : Trng) : Program Unit := do
  trng.enable
  let seed ← trng.getBytes 4
  Program.report .info .firmware do
    let simulated ← trng.isSimulated
    return "trng seed " ++ hexWord (wordOfBytes seed) ++ (if simulated then " (simulated)" else "")
  trng.disable

def bootReport (cycles : UInt32) : String :=
  "boot took " ++ toString cycles.toNat ++ " clock cycles ("
    ++ toString (cycles.toNat * 1000000 / clockHz.toNat) ++ " us at "
    ++ toString clockHz.toNat ++ " Hz)"

def boot : Program Unit := do
  let start ← Csr.cycle.read
  pins.setOutputEnable gpioOutputs
  pins.write 0xAA
  initConsole consoleConfig
  print lineEnd
  printLine "Hello World!"
  let now ← Csr.cycle.read
  printLine (bootReport (now - start))
  match MemoryMap.target.trng with
  | some block => reportSeed ⟨block⟩
  | none => pure ()
  startTimer
  install {}

/-- Lets the timer interrupt, and enables interrupts. -/
def enableTick : Program (Except DriverError Unit) := do
  match ← Interrupts.enableLine .machineTimer with
  | .ok () => Interrupts.enable
  | .error e => return .error e

def emptyLine : List UInt8 := List.replicate 64 0

/-- The text of a line: the bytes taken, without the NUL that stands for the carriage return. -/
def lineText (count : Nat) (buffer : List UInt8) : List UInt8 :=
  let line := buffer.take count
  if line.getLast? = some 0 then line.dropLast else line

def echo (text : List UInt8) : String :=
  "> " ++ (String.fromUTF8? ⟨text.toArray⟩).getD "<non-utf8 input>"

/-- One turn of the main loop, from the seconds shown last to the seconds shown now. -/
def serve (shown : UInt64) : Program UInt64 := do
  let s ← uptimeSeconds
  if s ≠ shown then
    pins.write s.toUInt32
    printLine ("uptime " ++ toString s.toNat ++ " s")
  if ← inputPending then
    let (count, buffer) ← readLine emptyLine
    printLine (echo (lineText count buffer))
  waitForInterrupt
  return s

/-- The image from reset on. It never ends. -/
def image : Program Empty := do
  boot
  match ← enableTick with
  | .ok () => Program.forever 0 serve
  | .error e =>
    Program.report .error .firmware (pure ("cannot enable timer interrupt: " ++ e.name))
    parkHart

end BoardSupport.Firmware
