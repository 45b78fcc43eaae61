import BoardSupport.Device.Bus
import BoardSupport.Fifo.Register
import BoardSupport.Fifo.Status

/-!
A UART block whose transmit line can be wired back into its receive FIFO.
-/
namespace BoardSupport

structure UartModel where
  control : UInt32 := 0
  /-- The stored bits of the transmit status. -/
  txStored : UInt32 := 0
  rxStored : UInt32 := 0
  /-- The received bytes, oldest first. -/
  rx : List UInt8 := []
  /-- Whether sent bytes come back. -/
  loopback : Bool := true
  /-- The readings of the transmit status for which the FIFO is still full. -/
  fullPolls : Nat := 0
  sent : Array UInt8 := #[]
  writes : Nat := 0
  deriving DecidableEq, Repr

namespace UartModel

open Fifo (Flag RxError)

/-- The bytes that the receive FIFO takes from the line. -/
def capacity : Nat := 1024

/-- Keeps the transmit FIFO full for the next readings of its status. -/
def holdFull (m : UartModel) (polls : Nat) : UartModel := { m with fullPolls := polls }

/-- Bytes arrive, whatever the FIFO holds. -/
def receive (m : UartModel) (bytes : List UInt8) : UartModel := { m with rx := m.rx ++ bytes }

def raise (m : UartModel) (mask : UInt32) : UartModel := { m with rxStored := m.rxStored ||| mask }

/-- A status word: the stored bits, the level, and the flags that follow from it. The watermark is
compared with the level as a word of 32 bits. -/
def statusWord (stored : UInt32) (level : Nat) (full : Bool) : UInt32 :=
  let watermark := (stored >>> 8) &&& 0xFF
  let word := stored ||| UInt32.ofNat (min level 0xFF)
  let word := if level = 0 then word ||| Flag.empty.mask else word
  let word := if full then word ||| Flag.full.mask else word
  if watermark ≠ 0 ∧ watermark ≤ UInt32.ofNat level then word ||| Flag.watermarkReached.mask else word

def txStatus (m : UartModel) : UInt32 :=
  if m.fullPolls = 0 then statusWord m.txStored 0 false else statusWord m.txStored 1 true

def rxStatus (m : UartModel) : UInt32 :=
  statusWord m.rxStored m.rx.length (capacity ≤ m.rx.length)

/-- A read. Taking data from an empty FIFO is an underflow. -/
def load (offset : Nat) (m : UartModel) : UInt32 × UartModel :=
  match Fifo.Register.ofOffset? offset with
  | some .data =>
    match m.rx with
    | byte :: rest => (byte.toUInt32, { m with rx := rest })
    | [] => (0, m.raise RxError.underflow.mask)
  | some .control => (m.control, m)
  | some (.status .tx) => (m.txStatus, { m with fullPolls := m.fullPolls - 1 })
  | some (.status .rx) => (m.rxStatus, m)
  | _ => (0, m)

/-- Sends a byte. With the line wired back it arrives, unless the FIFO is full: that is an overflow
and the byte is lost. -/
def send (m : UartModel) (byte : UInt8) : UartModel :=
  let m := { m with sent := m.sent.push byte }
  if m.loopback then
    if capacity ≤ m.rx.length then m.raise Flag.overflow.mask else { m with rx := m.rx ++ [byte] }
  else m

def act (offset : Nat) (value : UInt32) (m : UartModel) : UartModel :=
  match Fifo.Register.ofOffset? offset with
  | some .data => m.send value.toUInt8
  | some .control => { m with control := value }
  | some .controlSet => { m with control := m.control ||| value }
  | some .controlClear => { m with control := m.control &&& ~~~value }
  | some (.statusSet .tx) =>
    { m with txStored := m.txStored ||| (value &&& ~~~Fifo.clearCommand) }
  | some (.statusClear .tx) => { m with txStored := m.txStored &&& ~~~value }
  | some (.statusSet .rx) =>
    { m with
      rx := if value &&& Fifo.clearCommand != 0 then [] else m.rx
      rxStored := m.rxStored ||| (value &&& ~~~Fifo.clearCommand) }
  | some (.statusClear .rx) => { m with rxStored := m.rxStored &&& ~~~value }
  | _ => m

def store (offset : Nat) (value : UInt32) (m : UartModel) : UartModel :=
  { m.act offset value with writes := m.writes + 1 }

def bus : Bus UartModel :=
  .single (fun offset m => .ok (m.load offset)) (fun offset value m => .ok (m.store offset value))

end UartModel

end BoardSupport
