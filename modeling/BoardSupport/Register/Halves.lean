/-!
64-bit values as two 32-bit halves, the way a block with 32-bit registers shows them. The halves of
a value are its quotient and remainder by 2 ^ 32, and joining them gives the value back.
-/
namespace BoardSupport

def highHalf (v : UInt64) : UInt32 := UInt32.ofNat (v.toNat / 0x100000000)

def lowHalf (v : UInt64) : UInt32 := v.toUInt32

def joinHalves (high low : UInt32) : UInt64 := UInt64.ofNat (high.toNat * 0x100000000 + low.toNat)

/-- `v` with its lower half replaced. -/
def withLow (v : UInt64) (low : UInt32) : UInt64 := joinHalves (highHalf v) low

/-- `v` with its upper half replaced. -/
def withHigh (v : UInt64) (high : UInt32) : UInt64 := joinHalves high (lowHalf v)

theorem toNat_highHalf (v : UInt64) : (highHalf v).toNat = v.toNat / 0x100000000 := by
  have h := v.toNat_lt
  simp only [highHalf, UInt32.toNat_ofNat']
  omega

theorem toNat_lowHalf (v : UInt64) : (lowHalf v).toNat = v.toNat % 0x100000000 := by
  simp [lowHalf]

theorem toNat_joinHalves (high low : UInt32) :
    (joinHalves high low).toNat = high.toNat * 0x100000000 + low.toNat := by
  have hh := high.toNat_lt
  have hl := low.toNat_lt
  simp only [joinHalves, UInt64.toNat_ofNat']
  omega

@[simp] theorem joinHalves_halves (v : UInt64) : joinHalves (highHalf v) (lowHalf v) = v := by
  apply UInt64.toNat_inj.1
  rw [toNat_joinHalves, toNat_highHalf, toNat_lowHalf]
  omega

@[simp] theorem highHalf_joinHalves (high low : UInt32) : highHalf (joinHalves high low) = high := by
  have hl := low.toNat_lt
  apply UInt32.toNat_inj.1
  rw [toNat_highHalf, toNat_joinHalves]
  omega

@[simp] theorem lowHalf_joinHalves (high low : UInt32) : lowHalf (joinHalves high low) = low := by
  have hl := low.toNat_lt
  apply UInt32.toNat_inj.1
  rw [toNat_lowHalf, toNat_joinHalves]
  omega

end BoardSupport
