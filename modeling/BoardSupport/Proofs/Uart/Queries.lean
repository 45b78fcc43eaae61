import BoardSupport.Proofs.Register.Values
import BoardSupport.Proofs.Uart.Model

/-!
# What the status queries show

A status word is the stored bits with the level and the flags that follow from it put over
them. As long as the stored bits keep off these (`UartModel.LevelFree`), each query of the
receive side tells about one thing: the number of bytes that are pending, up to what the
word can show, or the watermark, or a flag that is stored: first the words
(`fillLevel_statusWord`, `watermarkReached_statusWord`), then the calls
(`Uart.returns_rxFlag`, `Uart.returns_hasError`).
-/

namespace BoardSupport

open Program
open Fifo (Flag RxError RxErrors Side Status)

/-! ## Words -/

namespace UartModel

/-- The stored bits are off the level and the flags that follow from it. -/
def LevelFree (stored : UInt32) : Prop :=
  ∀ i, bitAt stored i = true → Fifo.watermarkField.Covers i ∨ 19 ≤ i

variable {stored : UInt32} {level : Nat} {full : Bool}

theorem LevelFree.bitAt_eq_false (h : LevelFree stored) {i : Nat}
    (hoff : ¬ Fifo.watermarkField.Covers i) (hi : i < 19) : bitAt stored i = false := by
  refine Bool.eq_false_iff.mpr fun hbit => ?_
  rcases h i hbit with hcovers | hle
  · exact hoff hcovers
  · omega

/-- The watermark as the word is compared with it. -/
theorem toNat_watermark (stored : UInt32) :
    (stored >>> 8 &&& 0xFF).toNat = Fifo.watermarkField.value stored := by
  have hshift : (stored >>> 8).toNat = stored.toNat / 2 ^ 8 := by
    rw [UInt32.toNat_shiftRight]
    exact Nat.shiftRight_eq_div_pow _ _
  rw [UInt32.toNat_and, hshift]
  exact Nat.and_two_pow_sub_one_eq_mod _ 8

theorem value_watermark_statusWord :
    Fifo.watermarkField.value (statusWord stored level full)
      = Fifo.watermarkField.value stored := by
  refine Field.value_congr fun i hi => ?_
  have hlow : 8 ≤ i := hi.1
  have hhigh : i < 16 := hi.2
  rw [bitAt_statusWord _ _ _ hlow, decide_eq_false (p := i = 16) (by omega),
    decide_eq_false (p := i = 17) (by omega), decide_eq_false (p := i = 18) (by omega)]
  simp

theorem value_fillLevel_statusWord (h : LevelFree stored) :
    Fifo.fillLevelField.value (statusWord stored level full) = min level 0xFF := by
  have hbits : ∀ i, Fifo.fillLevelField.Covers i →
      bitAt (statusWord stored level full) i = bitAt (UInt32.ofNat (min level 0xFF)) i := by
    intro i hi
    have hhigh : i < 8 := Nat.lt_of_lt_of_eq hi.2 rfl
    have hoff : ¬ Fifo.watermarkField.Covers i := fun hcovers => Nat.not_le.mpr hhigh hcovers.1
    rw [bitAt_statusWord_eq, h.bitAt_eq_false hoff (by omega),
      decide_eq_false (p := i = 16) (by omega), decide_eq_false (p := i = 17) (by omega),
      decide_eq_false (p := i = 18) (by omega)]
    simp
  rw [Field.value_congr hbits, Field.value, UInt32.toNat_ofNat']
  show min level 0xFF % 2 ^ 32 / 2 ^ 0 % 2 ^ 8 = min level 0xFF
  omega

theorem fillLevel_statusWord (h : LevelFree stored) :
    (⟨statusWord stored level full⟩ : Status).fillLevel = UInt8.ofNat (min level 255) := by
  apply UInt8.toNat_inj.mp
  rw [Status.fillLevel, Field.toNat_get_toUInt8 (by decide), value_fillLevel_statusWord h,
    UInt8.toNat_ofNat']
  omega

section Watermark

variable {watermark : UInt8} (hstored : Fifo.watermarkField.value stored = watermark.toNat)

include hstored

/-- The watermark is shown as it is stored, whatever the other stored bits are. -/
theorem watermark_statusWord :
    (⟨statusWord stored level full⟩ : Status).watermark = watermark := by
  apply UInt8.toNat_inj.mp
  rw [Status.watermark, Field.toNat_get_toUInt8 (by decide), value_watermark_statusWord, hstored]

/-- The watermark is compared with the low word of the level. -/
theorem watermarkReached_statusWord (h : LevelFree stored) :
    (⟨statusWord stored level full⟩ : Status).has .watermarkReached
      = decide (watermark ≠ 0 ∧ watermark.toNat ≤ level % 0x100000000) := by
  have hvalue : (stored >>> 8 &&& 0xFF).toNat = watermark.toNat :=
    (toNat_watermark stored).trans hstored
  have hzero : stored >>> 8 &&& 0xFF ≠ 0 ↔ watermark ≠ 0 := by
    rw [ne_eq, ne_eq, ← UInt32.toNat_inj, ← UInt8.toNat_inj, hvalue]
    rfl
  have hreached : decide (stored >>> 8 &&& 0xFF ≠ 0 ∧ stored >>> 8 &&& 0xFF ≤ UInt32.ofNat level)
      = decide (watermark ≠ 0 ∧ watermark.toNat ≤ level % 0x100000000) := by
    rw [decide_eq_decide, hzero, UInt32.le_iff_toNat_le, hvalue, UInt32.toNat_ofNat']
  rw [Status.has_eq_bitAt, bitAt_statusWord _ _ _ (by decide),
    h.bitAt_eq_false (by decide) (by decide), hreached]
  simp [Flag.position]

end Watermark

end UartModel

/-! ## Calls -/

namespace Uart

variable (u : Uart) (m : Machine UartModel)

theorem returns_status (side : Side) :
    Returns (Machine.platform UartModel.bus) (u.status side) m
      ⟨(m.device.load (Fifo.Register.status side).offset).1⟩
      { m with device := (m.device.load (Fifo.Register.status side).offset).2 } :=
  (u.returns_readWord (.status side) m).map Status.mk

theorem returns_rxFlag (flag : Flag) :
    Returns (Machine.platform UartModel.bus) (u.hasFlag .rx flag) m
      ((⟨m.device.rxStatus⟩ : Status).has flag) m :=
  (u.returns_status m .rx).map fun status : Status => status.has flag

theorem returns_rxFillLevel :
    Returns (Machine.platform UartModel.bus) (u.fillLevel .rx) m
      (⟨m.device.rxStatus⟩ : Status).fillLevel m :=
  (u.returns_status m .rx).map Status.fillLevel

theorem returns_rxWatermark :
    Returns (Machine.platform UartModel.bus) (u.watermark .rx) m
      (⟨m.device.rxStatus⟩ : Status).watermark m :=
  (u.returns_status m .rx).map Status.watermark

/-- A reading of the transmit status uses up one of those that still show it full. -/
theorem returns_txWatermark :
    Returns (Machine.platform UartModel.bus) (u.watermark .tx) m
      (⟨m.device.txStatus⟩ : Status).watermark
      { m with device := { m.device with fullPolls := m.device.fullPolls - 1 } } :=
  (u.returns_status m .tx).map Status.watermark

theorem returns_hasError (error : RxError) :
    Returns (Machine.platform UartModel.bus) (u.hasError error) m
      (bitAt m.device.rxStored error.position) m := by
  have hbit : (RxErrors.ofStatus m.device.rxStatus).has error
      = bitAt m.device.rxStored error.position := by
    rw [RxErrors.has_ofStatus, UartModel.rxStatus]
    cases error with
    | underflow | noise | parity | frame =>
        rw [UartModel.bitAt_statusWord _ _ _ (by decide)]
        simp [RxError.position]
  have hword := u.returns_readWord (.status .rx) m
  have herrors := (hword.map RxErrors.ofStatus).map fun errors : RxErrors => errors.has error
  rw [← hbit]
  exact herrors

end Uart

end BoardSupport
