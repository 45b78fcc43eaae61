import BoardSupport.Device.Storage
import BoardSupport.Device.Timer
import BoardSupport.Device.Trng
import BoardSupport.Device.Uart

/-!
A simulated board: the block models that the firmware uses, each at its address.
-/
namespace BoardSupport.Firmware

/-- A block that the board has. -/
inductive BoardBlock
  | timer | uart | gpio | trng
  deriving DecidableEq, Repr

namespace BoardBlock

def block? : BoardBlock → Option Block
  | .timer => some MemoryMap.target.timer
  | .uart => some MemoryMap.target.uart0
  | .gpio => some MemoryMap.target.gpio
  | .trng => MemoryMap.target.trng

def all : List BoardBlock := [.timer, .uart, .gpio, .trng]

/-- The block at an address, if the board has one there. -/
def at? (b : Block) : Option BoardBlock := all.find? fun k => k.block? == some b

def name : BoardBlock → String
  | .timer => "timer"
  | .uart => "uart"
  | .gpio => "gpio"
  | .trng => "trng"

end BoardBlock

structure Board where
  timer : TimerModel := {}
  uart : UartModel := { loopback := false }
  gpio : RegisterModel := {}
  trng : TrngModel

namespace Board

/-- The board's bus. Where there is no block, reads give zero and writes are lost. -/
def bus : Bus Board where
  load b offset s :=
    match BoardBlock.at? b with
    | some .timer => do
      let (v, timer) ← TimerModel.bus.load b offset s.timer
      return (v, { s with timer })
    | some .uart => do
      let (v, uart) ← UartModel.bus.load b offset s.uart
      return (v, { s with uart })
    | some .gpio => do
      let (v, gpio) ← RegisterModel.bus.load b offset s.gpio
      return (v, { s with gpio })
    | some .trng => do
      let (v, trng) ← TrngModel.bus.load b offset s.trng
      return (v, { s with trng })
    | none => return (0, s)
  store b offset value s :=
    match BoardBlock.at? b with
    | some .timer => do return { s with timer := ← TimerModel.bus.store b offset value s.timer }
    | some .uart => do return { s with uart := ← UartModel.bus.store b offset value s.uart }
    | some .gpio => do return { s with gpio := ← RegisterModel.bus.store b offset value s.gpio }
    | some .trng => do return { s with trng := ← TrngModel.bus.store b offset value s.trng }
    | none => return s

end Board

end BoardSupport.Firmware
