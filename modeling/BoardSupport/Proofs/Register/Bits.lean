import BoardSupport.Register.Field

/-!
# Words and fields, bit by bit

`bitAt w i` is bit `i` of a word. A field covers a run of bits (`Field.Covers`): its
mask has exactly those bits set (`bitAt_mask`) and what `put` puts in place has no
others (`bitAt_put`). Two fields lie apart when no bit belongs to both
(`apart_iff_covers`).
-/

namespace BoardSupport

/-! ## Bits of a word -/

/-- Bit `i` of a word; the lowest is bit 0. -/
def bitAt (w : UInt32) (i : Nat) : Bool := w.toBitVec.getLsbD i

theorem eq_of_bitAt {v w : UInt32} (h : ∀ i < 32, bitAt v i = bitAt w i) : v = w :=
  UInt32.toBitVec_inj.mp (BitVec.eq_of_getLsbD_eq fun i hi => h i hi)

theorem lt_of_bitAt {w : UInt32} {i : Nat} (h : bitAt w i = true) : i < 32 :=
  BitVec.lt_of_getLsbD h

@[simp] theorem bitAt_zero (i : Nat) : bitAt 0 i = false := BitVec.getLsbD_zero

@[simp] theorem bitAt_and (v w : UInt32) (i : Nat) :
    bitAt (v &&& w) i = (bitAt v i && bitAt w i) := BitVec.getLsbD_and

@[simp] theorem bitAt_or (v w : UInt32) (i : Nat) :
    bitAt (v ||| w) i = (bitAt v i || bitAt w i) := BitVec.getLsbD_or

theorem bitAt_ofNat (n i : Nat) : bitAt (UInt32.ofNat n) i = (decide (i < 32) && n.testBit i) :=
  BitVec.getLsbD_ofNat 32 n i

theorem bitAt_not {w : UInt32} {i : Nat} (hi : i < 32) : bitAt (~~~w) i = !bitAt w i := by
  show (~~~w.toBitVec).getLsbD i = _
  rw [BitVec.getLsbD_not, decide_eq_true hi, Bool.true_and]
  rfl

theorem bitAt_and_not (v w : UInt32) (i : Nat) :
    bitAt (v &&& ~~~w) i = (bitAt v i && !bitAt w i) := by
  by_cases hi : i < 32
  · rw [bitAt_and, bitAt_not hi]
  · have hv : bitAt v i = false := Bool.eq_false_iff.mpr fun h => hi (lt_of_bitAt h)
    rw [bitAt_and, hv, Bool.false_and, Bool.false_and]

theorem bitAt_shiftLeft {w : UInt32} {n i : Nat} (hn : n < 32) :
    bitAt (w <<< UInt32.ofNat n) i = (decide (i < 32) && !decide (i < n) && bitAt w (i - n)) := by
  have hm : (UInt32.ofNat n).toBitVec % 32 = BitVec.ofNat 32 n := by
    apply BitVec.eq_of_toNat_eq
    simp
    omega
  rw [bitAt, UInt32.toBitVec_shiftLeft, hm, BitVec.shiftLeft_eq', BitVec.getLsbD_shiftLeft,
    BitVec.toNat_ofNat, Nat.mod_eq_of_lt (by omega)]
  rfl

theorem bitAt_shiftRight {w : UInt32} {n i : Nat} (hn : n < 32) :
    bitAt (w >>> UInt32.ofNat n) i = bitAt w (n + i) := by
  have hm : (UInt32.ofNat n).toBitVec % 32 = BitVec.ofNat 32 n := by
    apply BitVec.eq_of_toNat_eq
    simp
    omega
  rw [bitAt, UInt32.toBitVec_shiftRight, hm, BitVec.ushiftRight_eq', BitVec.getLsbD_ushiftRight,
    BitVec.toNat_ofNat, Nat.mod_eq_of_lt (by omega)]
  rfl

/-! ## Bytes in a word -/

theorem bitAt_toUInt32 (b : UInt8) (i : Nat) : bitAt b.toUInt32 i = b.toNat.testBit i := by
  show b.toUInt32.toNat.testBit i = _
  rw [UInt8.toNat_toUInt32]

theorem testBit_byte_of_le (b : UInt8) {i : Nat} (hi : 8 ≤ i) : b.toNat.testBit i = false :=
  Nat.testBit_lt_two_pow (Nat.lt_of_lt_of_le b.toNat_lt (Nat.pow_le_pow_right (by decide) hi))

/-- The low byte of a word is told by its bits. -/
theorem toUInt8_eq_of_bitAt {w : UInt32} {b : UInt8}
    (h : ∀ i < 8, bitAt w i = b.toNat.testBit i) : w.toUInt8 = b := by
  apply UInt8.toNat_inj.mp
  apply Nat.eq_of_testBit_eq
  intro i
  rw [UInt32.toNat_toUInt8, Nat.testBit_mod_two_pow]
  by_cases hi : i < 8
  · rw [decide_eq_true hi, Bool.true_and]
    exact h i hi
  · rw [decide_eq_false hi, testBit_byte_of_le b (Nat.le_of_not_lt hi), Bool.false_and]

/-! ## Bits of a field -/

namespace Field

def Covers (f : Field) (i : Nat) : Prop := f.shift ≤ i ∧ i < f.shift + f.width

instance (f : Field) (i : Nat) : Decidable (f.Covers i) := inferInstanceAs (Decidable (_ ∧ _))

/-- The fields share no bit. -/
def Apart (f g : Field) : Prop := f.shift + f.width ≤ g.shift ∨ g.shift + g.width ≤ f.shift

instance (f g : Field) : Decidable (f.Apart g) := inferInstanceAs (Decidable (_ ∨ _))

theorem apart_iff_covers {f g : Field} : f.Apart g ↔ ∀ i, f.Covers i → ¬ g.Covers i := by
  have hf := f.width_pos
  have hg := g.width_pos
  constructor
  · rintro (h | h) i ⟨hi, hi'⟩ ⟨hj, hj'⟩ <;> omega
  · intro h
    have h₁ := h (max f.shift g.shift)
    unfold Covers at h₁
    unfold Apart
    omega

/-- The mask has the bits of the field and no others. -/
theorem bitAt_mask (f : Field) (i : Nat) : bitAt f.mask i = decide (f.Covers i) := by
  have hw := f.width_pos
  have hfit := f.fits
  have hones : ∀ j, bitAt 0xFFFFFFFF j = decide (j < 32) := fun j => BitVec.getLsbD_allOnes
  rw [mask, bitAt_shiftLeft (by omega), bitAt_shiftRight (by omega), hones]
  unfold Covers
  by_cases h : f.shift ≤ i ∧ i < f.shift + f.width
  · simp [h]
    omega
  · simp [h]
    omega

theorem bitAt_bit_mask {n : Nat} (hn : n < 32) (i : Nat) :
    bitAt (Field.bit n hn).mask i = decide (i = n) := by
  rw [bitAt_mask, decide_eq_decide]
  show n ≤ i ∧ i < n + 1 ↔ i = n
  omega

/-- A value in place shows its low bits inside the field and nothing outside. -/
theorem bitAt_put (f : Field) (value : UInt32) (i : Nat) :
    bitAt (f.put value) i = (decide (f.Covers i) && bitAt value (i - f.shift)) := by
  have hw := f.width_pos
  have hfit := f.fits
  rw [put, bitAt_and, bitAt_mask, bitAt_shiftLeft (by omega)]
  by_cases h : f.Covers i
  · obtain ⟨hlow, hhigh⟩ := h
    have hi : i < 32 := by omega
    simp [Covers, hlow, hhigh, hi]
  · simp [h]

theorem covers_of_bitAt_put {f : Field} {value : UInt32} {i : Nat}
    (h : bitAt (f.put value) i = true) : f.Covers i := by
  rw [bitAt_put, Bool.and_eq_true] at h
  exact of_decide_eq_true h.1

/-! ## Whether a field is set -/

section IsSet

variable {f g : Field} {v w : UInt32}

theorem isSet_iff : f.isSet w = true ↔ ∃ i, f.Covers i ∧ bitAt w i = true := by
  rw [isSet, bne_iff_ne]
  constructor
  · intro h
    refine Classical.byContradiction fun hnone => h (eq_of_bitAt fun i _ => ?_)
    rw [bitAt_and, bitAt_mask, bitAt_zero, Bool.and_eq_false_iff, decide_eq_false_iff_not]
    by_cases hw : bitAt w i = true
    · exact Or.inr fun hi => hnone ⟨i, hi, hw⟩
    · exact Or.inl (Bool.eq_false_iff.mpr hw)
  · rintro ⟨i, hi, hw⟩ h
    have hbit := congrArg (bitAt · i) h
    simp only [bitAt_and, bitAt_mask, bitAt_zero, hw, decide_eq_true hi] at hbit
    cases hbit

/-- Only the bits of the field count. -/
theorem isSet_congr (h : ∀ i, f.Covers i → bitAt v i = bitAt w i) : f.isSet v = f.isSet w := by
  rw [Bool.eq_iff_iff, isSet_iff, isSet_iff]
  exact exists_congr fun i => and_congr_right fun hi => by rw [h i hi]

theorem isSet_bit {n : Nat} (hn : n < 32) : (Field.bit n hn).isSet w = bitAt w n := by
  rw [Bool.eq_iff_iff, isSet_iff]
  constructor
  · rintro ⟨i, ⟨hlow, hhigh⟩, hw⟩
    obtain rfl : i = n := Nat.le_antisymm (Nat.le_of_lt_succ hhigh) hlow
    exact hw
  · intro hw
    exact ⟨n, ⟨Nat.le_refl n, Nat.lt_succ_self n⟩, hw⟩

@[simp] theorem isSet_or_mask : f.isSet (w ||| f.mask) = true := by
  have hlow : f.Covers f.shift := ⟨Nat.le_refl _, Nat.lt_add_of_pos_right f.width_pos⟩
  refine isSet_iff.mpr ⟨f.shift, hlow, ?_⟩
  rw [bitAt_or, bitAt_mask, decide_eq_true hlow, Bool.or_true]

@[simp] theorem isSet_and_not_mask : f.isSet (w &&& ~~~f.mask) = false := by
  refine Bool.eq_false_iff.mpr fun h => ?_
  obtain ⟨i, hi, hw⟩ := isSet_iff.mp h
  rw [bitAt_and_not, bitAt_mask, decide_eq_true hi, Bool.not_true, Bool.and_false] at hw
  cases hw

theorem isSet_or_mask_of_apart (h : f.Apart g) : f.isSet (w ||| g.mask) = f.isSet w := by
  refine isSet_congr fun i hi => ?_
  rw [bitAt_or, bitAt_mask, decide_eq_false (apart_iff_covers.mp h i hi), Bool.or_false]

theorem isSet_and_not_mask_of_apart (h : f.Apart g) : f.isSet (w &&& ~~~g.mask) = f.isSet w := by
  refine isSet_congr fun i hi => ?_
  rw [bitAt_and_not, bitAt_mask, decide_eq_false (apart_iff_covers.mp h i hi), Bool.not_false,
    Bool.and_true]

end IsSet

end Field

end BoardSupport
