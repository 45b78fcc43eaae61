import BoardSupport.Device.Spi
import BoardSupport.Device.Storage
import BoardSupport.Device.Timer
import BoardSupport.Device.Trng
import BoardSupport.Device.Uart

/-!
Any one of the block models, as a bus of its own.
-/
namespace BoardSupport

/-- A block under test. -/
inductive BlockModel
  | registers (model : RegisterModel)
  | memory (model : MemoryModel)
  | script (model : ScriptModel)
  | timer (model : TimerModel)
  | uart (model : UartModel)
  | spi (model : SpiModel)
  | trng (model : TrngModel)

namespace BlockModel

/-- A read of a block, with the block put back. -/
def loadAs {δ : Type} (bus : Bus δ) (wrap : δ → BlockModel) (b : Block) (offset : Nat) (d : δ) :
    Except Fault (UInt32 × BlockModel) :=
  (bus.load b offset d).map fun (value, d) => (value, wrap d)

/-- A write of a block, with the block put back. -/
def storeAs {δ : Type} (bus : Bus δ) (wrap : δ → BlockModel) (b : Block) (offset : Nat)
    (value : UInt32) (d : δ) : Except Fault BlockModel :=
  (bus.store b offset value d).map wrap

def bus : Bus BlockModel where
  load b offset
    | .registers m => loadAs RegisterModel.bus .registers b offset m
    | .memory m => loadAs MemoryModel.bus .memory b offset m
    | .script m => loadAs ScriptModel.bus .script b offset m
    | .timer m => loadAs TimerModel.bus .timer b offset m
    | .uart m => loadAs UartModel.bus .uart b offset m
    | .spi m => loadAs SpiModel.bus .spi b offset m
    | .trng m => loadAs TrngModel.bus .trng b offset m
  store b offset value
    | .registers m => storeAs RegisterModel.bus .registers b offset value m
    | .memory m => storeAs MemoryModel.bus .memory b offset value m
    | .script m => storeAs ScriptModel.bus .script b offset value m
    | .timer m => storeAs TimerModel.bus .timer b offset value m
    | .uart m => storeAs UartModel.bus .uart b offset value m
    | .spi m => storeAs SpiModel.bus .spi b offset value m
    | .trng m => storeAs TrngModel.bus .trng b offset value m

end BlockModel

end BoardSupport
