/-!
Where the register blocks of the chip are. A block is known by its base address; a map says which
blocks a chip has.
-/
namespace BoardSupport

/-- A register block, by the address of its first register. -/
structure Block where
  base : UInt32
  deriving DecidableEq, Repr

structure MemoryMap where
  timer : Block
  uart0 : Block
  spi0 : Block
  spi1 : Option Block
  gpio : Block
  trng : Option Block
  deriving DecidableEq, Repr

namespace MemoryMap

def full : MemoryMap where
  timer := ⟨0xC0000100⟩
  uart0 := ⟨0xC0000200⟩
  spi0 := ⟨0xC0000400⟩
  spi1 := some ⟨0xC0000500⟩
  gpio := ⟨0xC0000600⟩
  trng := some ⟨0xC0000800⟩

/-- The reduced chip: blocks packed closely, one SPI controller, no random number generator. -/
def reduced : MemoryMap where
  timer := ⟨0xC0000100⟩
  uart0 := ⟨0xC0000200⟩
  spi0 := ⟨0xC0000300⟩
  spi1 := none
  gpio := ⟨0xC0000400⟩
  trng := none

/-- The chip that firmware is built for. -/
def target : MemoryMap := full

end MemoryMap

end BoardSupport
