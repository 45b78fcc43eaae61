import BoardSupport.Fault
import BoardSupport.MemoryMap

/-!
What is on the other end of a register access: a bus that answers reads and takes writes, each
changing the devices behind it.
-/
namespace BoardSupport

/-- The devices of a state `δ`, as seen through register accesses. An access may be a fault, and
then changes nothing. -/
structure Bus (δ : Type) where
  load : Block → (offset : Nat) → δ → Except Fault (UInt32 × δ)
  store : Block → (offset : Nat) → (value : UInt32) → δ → Except Fault δ

/-- A bus with a single block on it, which answers under every address. -/
def Bus.single {δ : Type} (load : Nat → δ → Except Fault (UInt32 × δ))
    (store : Nat → UInt32 → δ → Except Fault δ) : Bus δ :=
  ⟨fun _ offset d => load offset d, fun _ offset value d => store offset value d⟩

end BoardSupport
