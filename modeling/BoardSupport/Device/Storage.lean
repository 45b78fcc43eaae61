import BoardSupport.Device.Bus

/-!
Blocks without behaviour of their own: words that keep what is written, ordinary memory, and a
script that decides what is read.
-/
namespace BoardSupport

/-! ## Registers that keep their words -/

/-- Words by offset, zero where nothing was put, and the number of writes. -/
structure RegisterModel where
  words : List (Nat × UInt32) := []
  writes : Nat := 0
  deriving DecidableEq, Repr

namespace RegisterModel

def get (m : RegisterModel) (offset : Nat) : UInt32 := (m.words.lookup offset).getD 0

/-- The same words but for one offset. -/
def put (m : RegisterModel) (offset : Nat) (value : UInt32) : RegisterModel :=
  { m with words := (offset, value) :: m.words.filter fun w => w.1 != offset }

def store (m : RegisterModel) (offset : Nat) (value : UInt32) : RegisterModel :=
  { m.put offset value with writes := m.writes + 1 }

def bus : Bus RegisterModel :=
  .single (fun offset m => .ok (m.get offset, m)) (fun offset value m => .ok (m.store offset value))

end RegisterModel

/-! ## Memory -/

structure MemoryModel where
  words : Array UInt32
  deriving DecidableEq, Repr

/-- Memory as a block: the word at each multiple of four. Reads past its end give zero and writes
there are lost. -/
def MemoryModel.bus : Bus MemoryModel :=
  .single (fun offset m => .ok (m.words.getD (offset / 4) 0, m))
    (fun offset value m => .ok ⟨m.words.setIfInBounds (offset / 4) value⟩)

/-! ## Scripts -/

/-- The words that reads will give, by offset. -/
structure ScriptModel where
  reads : List (Nat × List UInt32)
  deriving DecidableEq, Repr

namespace ScriptModel

/-- What is left of a list of words after a read: the last word stays. -/
def advance : List UInt32 → List UInt32
  | _ :: w :: rest => w :: rest
  | words => words

/-- A read takes the next word of the offset's list. -/
def load (offset : Nat) (m : ScriptModel) : UInt32 × ScriptModel :=
  let words := (m.reads.lookup offset).getD []
  (words.headD 0,
    ⟨m.reads.map fun r => if r.1 = offset then (r.1, advance r.2) else r⟩)

/-- A block whose reads follow the script and whose writes do nothing. -/
def bus : Bus ScriptModel := .single (fun offset m => .ok (m.load offset)) (fun _ _ m => .ok m)

end ScriptModel

end BoardSupport
