/-!
The registers of a block with a transmit and a receive FIFO. The control word and both status
words have a set alias and a clear alias, through which single bits change in one access.
-/
namespace BoardSupport.Fifo

inductive Side
  | tx | rx
  deriving DecidableEq, Repr

inductive Register
  | data
  | control
  | controlSet
  | controlClear
  | status (side : Side)
  | statusSet (side : Side)
  | statusClear (side : Side)
  deriving DecidableEq, Repr

namespace Register

/-- The distance of the register from the start of its block. -/
def offset : Register → Nat
  | .data => 0x00
  | .control => 0x04
  | .controlSet => 0x08
  | .controlClear => 0x0C
  | .status .tx => 0x10
  | .statusSet .tx => 0x14
  | .statusClear .tx => 0x18
  | .status .rx => 0x1C
  | .statusSet .rx => 0x20
  | .statusClear .rx => 0x24

def all : List Register :=
  [.data, .control, .controlSet, .controlClear, .status .tx, .statusSet .tx, .statusClear .tx,
   .status .rx, .statusSet .rx, .statusClear .rx]

def ofOffset? (offset : Nat) : Option Register := all.find? fun r => r.offset == offset

@[simp] theorem ofOffset?_offset (r : Register) : ofOffset? r.offset = some r := by
  cases r with
  | status s | statusSet s | statusClear s => cases s <;> rfl
  | _ => rfl

end Register

end BoardSupport.Fifo
