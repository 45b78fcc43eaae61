import BoardSupport.Device.Bus
import BoardSupport.Fifo.Register
import BoardSupport.Fifo.Status
import BoardSupport.Spi.Driver

/-!
An SPI controller whose input line plays a script and echoes the output line when the script ends.
-/
namespace BoardSupport

/-- One byte on the output line, with the select lines as they were then. -/
structure SpiFrame where
  byte : UInt8
  selected : Bool
  softwareSelect : Bool
  deriving DecidableEq, Repr

structure SpiModel where
  control : UInt32
  txEnabled : Bool := false
  rxEnabled : Bool := true
  /-- The stored bits of the transmit status. -/
  txStored : UInt32 := 0
  rxStored : UInt32 := 0
  /-- The readings of the transmit status for which a transfer is still in flight. -/
  busyPolls : Nat := 0
  /-- The received bytes, oldest first. -/
  rx : List UInt8 := []
  /-- The bytes that the input line will bring. -/
  miso : List UInt8 := []
  frames : Array SpiFrame := #[]
  controlTrace : Array UInt32 := #[]
  deriving DecidableEq, Repr

namespace SpiModel

/-- A master out of reset: outputs on, hardware select, not asserted. -/
def master : SpiModel := { control := 0x1011000 }

/-- A slave out of reset: outputs on, hardware select, not asserted. -/
def slave : SpiModel := { control := 0x1001000 }

/-- Keeps a transfer in flight for the next readings of the transmit status. -/
def stayBusy (m : SpiModel) (polls : Nat) : SpiModel := { m with busyPolls := polls }

def scriptMiso (m : SpiModel) (bytes : List UInt8) : SpiModel := { m with miso := m.miso ++ bytes }

def receive (m : SpiModel) (bytes : List UInt8) : SpiModel := { m with rx := m.rx ++ bytes }

def selected (m : SpiModel) : Bool := !Spi.selectLevelField.isSet m.control

def softwareSelect (m : SpiModel) : Bool := Spi.softwareSelectField.isSet m.control

/-- The transmit status. The FIFO is always drained at once. -/
def txStatus (m : SpiModel) : UInt32 :=
  let word := m.txStored ||| Fifo.Flag.empty.mask
  let word := if m.txEnabled then word ||| Spi.enableMask else word
  if m.busyPolls = 0 then word ||| Spi.readyMask else word

def rxStatus (m : SpiModel) : UInt32 :=
  let word := m.rxStored ||| UInt32.ofNat (min m.rx.length 0xFF)
  let word := if m.rxEnabled then word ||| Spi.enableMask else word
  if m.rx.isEmpty then word ||| Fifo.Flag.empty.mask else word

def load (offset : Nat) (m : SpiModel) : UInt32 × SpiModel :=
  match Fifo.Register.ofOffset? offset with
  | some .data =>
    match m.rx with
    | byte :: rest => (byte.toUInt32, { m with rx := rest })
    | [] => (0, m)
  | some .control => (m.control, m)
  | some (.status .tx) => (m.txStatus, { m with busyPolls := m.busyPolls - 1 })
  | some (.status .rx) => (m.rxStatus, m)
  | _ => (0, m)

/-- Shifts a byte out, if sending is enabled. The byte that comes in with it is kept if receiving is
enabled. -/
def shift (m : SpiModel) (byte : UInt8) : SpiModel :=
  if m.txEnabled then
    let m := { m with frames := m.frames.push ⟨byte, m.selected, m.softwareSelect⟩ }
    if m.rxEnabled then
      { m with rx := m.rx ++ [m.miso.headD byte], miso := m.miso.tail }
    else m
  else m

def putControl (m : SpiModel) (value : UInt32) : SpiModel :=
  { m with control := value, controlTrace := m.controlTrace.push value }

def store (offset : Nat) (value : UInt32) (m : SpiModel) : SpiModel :=
  match Fifo.Register.ofOffset? offset with
  | some .data => m.shift value.toUInt8
  | some .control => m.putControl value
  | some .controlSet => m.putControl (m.control ||| value)
  | some .controlClear => m.putControl (m.control &&& ~~~value)
  | some (.statusSet .tx) =>
    { m with
      txEnabled := m.txEnabled || value &&& Spi.enableMask != 0
      txStored := m.txStored ||| (value &&& ~~~Spi.enableMask) }
  | some (.statusClear .tx) =>
    { m with
      txEnabled := m.txEnabled && value &&& Spi.enableMask == 0
      txStored := m.txStored &&& ~~~value }
  | some (.statusSet .rx) =>
    { m with
      rxEnabled := m.rxEnabled || value &&& Spi.enableMask != 0
      rxStored := m.rxStored ||| (value &&& ~~~Spi.enableMask) }
  | some (.statusClear .rx) =>
    { m with
      rxEnabled := m.rxEnabled && value &&& Spi.enableMask == 0
      rxStored := m.rxStored &&& ~~~value }
  | _ => m

def bus : Bus SpiModel :=
  .single (fun offset m => .ok (m.load offset)) (fun offset value m => .ok (m.store offset value))

end SpiModel

end BoardSupport
