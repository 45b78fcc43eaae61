import BoardSupport.Device.Spi
import BoardSupport.Proofs.Device.Access
import BoardSupport.Proofs.Register.Bits

/-!
# The SPI block, read and written

The stored status words of a block that only its driver has written hold watermark
bits and nothing else (`SpiModel.Quiet`); then the flags of a status word follow from
the FIFOs (`ready_txStatus`, `empty_rxStatus`), and switching a side on or off changes
nothing besides (`store_enable`, `store_disable`). Selecting and deselecting are
changes of two bits of the control word, away from the bits of the role.
-/

namespace BoardSupport

open Program
open Fifo (Side Flag Status)

/-! ## Words that hold only watermark bits -/

def Fifo.WatermarkOnly (w : UInt32) : Prop := w &&& ~~~Fifo.watermarkField.mask = 0

instance (w : UInt32) : Decidable (Fifo.WatermarkOnly w) := inferInstanceAs (Decidable (_ = _))

namespace Fifo.WatermarkOnly

variable {w : UInt32}

theorem bitAt_eq_false (h : WatermarkOnly w) {i : Nat} (hi : ¬ watermarkField.Covers i) :
    bitAt w i = false := by
  have hbit := congrArg (bitAt · i) h
  simp only [bitAt_and_not, Field.bitAt_mask, decide_eq_false hi, bitAt_zero] at hbit
  simpa using hbit

/-- A bit that is no watermark bit can be cleared without effect. -/
theorem and_not_bit (h : WatermarkOnly w) {n : Nat} (hn : n < 32)
    (hi : ¬ watermarkField.Covers n) : w &&& ~~~(Field.bit n hn).mask = w := by
  refine eq_of_bitAt fun i _ => ?_
  rw [bitAt_and_not, Field.bitAt_mask]
  by_cases hc : (Field.bit n hn).Covers i
  · obtain rfl : i = n := Nat.le_antisymm (Nat.le_of_lt_succ hc.2) hc.1
    rw [h.bitAt_eq_false hi, Bool.false_and]
  · rw [decide_eq_false hc, Bool.not_false, Bool.and_true]

/-- Watermark bits may be set. -/
theorem or (h : WatermarkOnly w) {v : UInt32}
    (hv : ∀ i, bitAt v i = true → watermarkField.Covers i) : WatermarkOnly (w ||| v) := by
  refine eq_of_bitAt fun i _ => ?_
  rw [bitAt_and_not, bitAt_or, Field.bitAt_mask, bitAt_zero]
  by_cases hi : watermarkField.Covers i
  · simp [hi]
  · have hclear : bitAt v i = false := Bool.eq_false_iff.mpr fun hbit => hi (hv i hbit)
    simp [hi, hclear, h.bitAt_eq_false hi]

/-- Any bit may be cleared. -/
theorem and (h : WatermarkOnly w) (v : UInt32) : WatermarkOnly (w &&& v) := by
  refine eq_of_bitAt fun i _ => ?_
  rw [bitAt_and_not, bitAt_and, Field.bitAt_mask, bitAt_zero]
  by_cases hi : watermarkField.Covers i
  · simp [hi]
  · simp [hi, h.bitAt_eq_false hi]

end Fifo.WatermarkOnly

/-! ## Masks as fields -/

theorem Spi.enableMask_eq : Spi.enableMask = (Field.bit 31).mask := by decide

theorem Spi.readyMask_eq : Spi.readyMask = (Field.bit 20).mask := by decide

theorem Fifo.Flag.full_mask_eq : Flag.full.mask = (Field.bit 16).mask := by decide

theorem Fifo.Flag.empty_mask_eq : Flag.empty.mask = (Field.bit 17).mask := by decide

namespace SpiModel

/-- The stored status words hold only watermark bits. -/
structure Quiet (d : SpiModel) : Prop where
  tx : Fifo.WatermarkOnly d.txStored
  rx : Fifo.WatermarkOnly d.rxStored

/-! ## Flags -/

section Flags

variable {d : SpiModel}

/-- The bits of the transmit status that do not belong to the watermark. -/
theorem bitAt_txStatus (h : d.Quiet) {n : Nat} (hn : ¬ Fifo.watermarkField.Covers n) :
    bitAt d.txStatus n = (decide (n = 17) || d.txEnabled && decide (n = 31) ||
      decide (d.busyPolls = 0) && decide (n = 20)) := by
  have hstored : bitAt d.txStored n = false := h.tx.bitAt_eq_false hn
  simp only [txStatus, Spi.readyMask_eq, Spi.enableMask_eq, Flag.empty_mask_eq]
  by_cases hbusy : d.busyPolls = 0
  · cases hen : d.txEnabled <;> simp [hstored, hbusy, Field.bitAt_bit_mask]
  · cases hen : d.txEnabled <;> simp [hstored, hbusy, Field.bitAt_bit_mask]

/-- The bits of the receive status above the watermark. -/
theorem bitAt_rxStatus (h : d.Quiet) {n : Nat} (hn : 16 ≤ n) :
    bitAt d.rxStatus n = (d.rxEnabled && decide (n = 31) ||
      d.rx.isEmpty && decide (n = 17)) := by
  have hstored : bitAt d.rxStored n = false :=
    h.rx.bitAt_eq_false fun hc => Nat.not_lt.mpr hn hc.2
  have hlevel : bitAt (UInt32.ofNat (min d.rx.length 0xFF)) n = false := by
    have hlt : min d.rx.length 0xFF < 2 ^ n :=
      Nat.lt_of_lt_of_le (by omega : _ < 2 ^ 16) (Nat.pow_le_pow_right (by decide) hn)
    rw [bitAt_ofNat, Nat.testBit_lt_two_pow hlt, Bool.and_false]
  simp only [rxStatus, Spi.enableMask_eq, Flag.empty_mask_eq]
  cases hen : d.rxEnabled <;> cases hrx : d.rx.isEmpty <;>
    simp [hstored, hlevel, Field.bitAt_bit_mask]

theorem ready_txStatus (h : d.Quiet) :
    (d.txStatus &&& Spi.readyMask != 0) = decide (d.busyPolls = 0) := by
  rw [Spi.readyMask_eq]
  show (Field.bit 20).isSet d.txStatus = _
  rw [Field.isSet_bit, bitAt_txStatus h (by decide)]
  simp

theorem full_txStatus (h : d.Quiet) : (⟨d.txStatus⟩ : Status).has .full = false := by
  rw [Status.has, Flag.full_mask_eq]
  show (Field.bit 16).isSet d.txStatus = _
  rw [Field.isSet_bit, bitAt_txStatus h (by decide)]
  simp

theorem empty_rxStatus (h : d.Quiet) :
    (⟨d.rxStatus⟩ : Status).has .empty = d.rx.isEmpty := by
  rw [Status.has, Flag.empty_mask_eq]
  show (Field.bit 17).isSet d.rxStatus = _
  rw [Field.isSet_bit, bitAt_rxStatus h (by decide)]
  simp

end Flags

/-! ## Accesses -/

section Accesses

variable (d : SpiModel)

/-- The block after a reading of the transmit status. -/
def polled : SpiModel := { d with busyPolls := d.busyPolls - 1 }

variable {d} in
theorem load_data {byte : UInt8} {rest : List UInt8} (h : d.rx = byte :: rest) :
    d.load Fifo.Register.data.offset = (byte.toUInt32, { d with rx := rest }) := by
  simp only [load, Fifo.Register.ofOffset?_offset, h]

/-- A reading uses up a received byte or a busy poll, and changes nothing besides. -/
theorem exists_load_eq (offset : Nat) : ∃ rx polls,
    (d.load offset).2 = { d with rx := rx, busyPolls := polls } ∧ (d.rx = [] → rx = []) := by
  unfold load
  cases Fifo.Register.ofOffset? offset with
  | none => exact ⟨_, _, rfl, id⟩
  | some r =>
      cases r with
      | data =>
          cases hrx : d.rx with
          | nil => exact ⟨_, _, rfl, fun _ => hrx⟩
          | cons byte rest => exact ⟨rest, _, rfl, nofun⟩
      | status side => cases side <;> exact ⟨_, _, rfl, id⟩
      | _ => exact ⟨_, _, rfl, id⟩

theorem store_data (byte : UInt8) :
    d.store Fifo.Register.data.offset byte.toUInt32 = d.shift byte := by
  show d.shift byte.toUInt32.toUInt8 = d.shift byte
  rw [UInt8.toUInt8_toUInt32]

/-- Every bit of a field of the control word set, or cleared. -/
def withBits (f : Field) (set : Bool) : SpiModel :=
  d.putControl (if set then d.control ||| f.mask else d.control &&& ~~~f.mask)

def withEnabled : Side → Bool → SpiModel
  | .tx, on => { d with txEnabled := on }
  | .rx, on => { d with rxEnabled := on }

theorem store_enable (side : Side) :
    d.store (Fifo.Register.statusSet side).offset Spi.enableMask = d.withEnabled side true := by
  have hself : Spi.enableMask &&& ~~~Spi.enableMask = 0 := by decide
  have hset : (Spi.enableMask &&& Spi.enableMask != 0) = true := by decide
  cases side with
  | tx =>
      show { d with
        txEnabled := d.txEnabled || Spi.enableMask &&& Spi.enableMask != 0
        txStored := d.txStored ||| (Spi.enableMask &&& ~~~Spi.enableMask) } = _
      rw [hself, hset, UInt32.or_zero, Bool.or_true, withEnabled]
  | rx =>
      show { d with
        rxEnabled := d.rxEnabled || Spi.enableMask &&& Spi.enableMask != 0
        rxStored := d.rxStored ||| (Spi.enableMask &&& ~~~Spi.enableMask) } = _
      rw [hself, hset, UInt32.or_zero, Bool.or_true, withEnabled]

variable {d}

theorem store_disable (h : d.Quiet) (side : Side) :
    d.store (Fifo.Register.statusClear side).offset Spi.enableMask
      = d.withEnabled side false := by
  have hclear : (Spi.enableMask &&& Spi.enableMask == 0) = false := by decide
  cases side with
  | tx =>
      show { d with
        txEnabled := d.txEnabled && Spi.enableMask &&& Spi.enableMask == 0
        txStored := d.txStored &&& ~~~Spi.enableMask } = _
      rw [hclear, Bool.and_false, Spi.enableMask_eq, h.tx.and_not_bit (by decide) (by decide),
        withEnabled]
  | rx =>
      show { d with
        rxEnabled := d.rxEnabled && Spi.enableMask &&& Spi.enableMask == 0
        rxStored := d.rxStored &&& ~~~Spi.enableMask } = _
      rw [hclear, Bool.and_false, Spi.enableMask_eq, h.rx.and_not_bit (by decide) (by decide),
        withEnabled]

end Accesses

end SpiModel

/-! ## The control word of a transaction -/

namespace Spi

/-- The control word with the slave selected by software. -/
def openControl (c : UInt32) : UInt32 :=
  (c ||| softwareSelectField.mask) &&& ~~~selectLevelField.mask

/-- The control word with the slave select given back, not asserted. -/
def closedControl (c : UInt32) : UInt32 :=
  (c ||| selectLevelField.mask) &&& ~~~softwareSelectField.mask

theorem closedControl_openControl (c : UInt32) :
    closedControl (openControl c) = closedControl c := by
  refine eq_of_bitAt fun i _ => ?_
  simp only [closedControl, openControl, bitAt_and_not, bitAt_or]
  cases bitAt selectLevelField.mask i <;> cases bitAt softwareSelectField.mask i <;> simp

@[simp] theorem selectLevel_openControl (c : UInt32) :
    selectLevelField.isSet (openControl c) = false := Field.isSet_and_not_mask

@[simp] theorem softwareSelect_openControl (c : UInt32) :
    softwareSelectField.isSet (openControl c) = true := by
  rw [openControl, Field.isSet_and_not_mask_of_apart (by decide)]
  exact Field.isSet_or_mask

/-- The bits of the role lie away from those of the slave select. -/
theorem effectiveRole_congr {v w : UInt32}
    (h : ∀ f, Field.Apart f selectLevelField → Field.Apart f softwareSelectField →
      f.isSet v = f.isSet w) : effectiveRole v = effectiveRole w := by
  unfold effectiveRole
  rw [h configFixedField (by decide) (by decide), h resetRoleField (by decide) (by decide),
    h masterField (by decide) (by decide)]

@[simp] theorem effectiveRole_openControl (c : UInt32) :
    effectiveRole (openControl c) = effectiveRole c :=
  effectiveRole_congr fun _ hsel hsw => by
    rw [openControl, Field.isSet_and_not_mask_of_apart hsel, Field.isSet_or_mask_of_apart hsw]

@[simp] theorem effectiveRole_closedControl (c : UInt32) :
    effectiveRole (closedControl c) = effectiveRole c :=
  effectiveRole_congr fun _ hsel hsw => by
    rw [closedControl, Field.isSet_and_not_mask_of_apart hsw, Field.isSet_or_mask_of_apart hsel]

end Spi

end BoardSupport
