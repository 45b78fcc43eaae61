import BoardSupport.Proofs.Register.Bits
import Mathlib.Algebra.Ring.Nat

/-!
# Fields as numbers

`f.value w` is the number that a word holds in a field. It depends on the bits of the
field alone (`value_congr`), and it is what reading the field gives (`toNat_get`). When a
field is rewritten, its low bits are those of the new number (`value_rewrite`), and every
field apart from it keeps its number (`value_rewrite_of_apart`).
-/

namespace BoardSupport.Field

variable {f g : Field} {v w : UInt32}

/-- The number that the word holds in the field. -/
def value (f : Field) (w : UInt32) : Nat := w.toNat / 2 ^ f.shift % 2 ^ f.width

/-- The word with the field cleared and then set to a value. -/
def rewrite (f : Field) (w value : UInt32) : UInt32 := w &&& ~~~f.mask ||| f.put value

theorem testBit_value (f : Field) (w : UInt32) (j : Nat) :
    (f.value w).testBit j = (decide (j < f.width) && bitAt w (f.shift + j)) := by
  unfold value
  rw [Nat.testBit_mod_two_pow, Nat.testBit_div_two_pow, Nat.add_comm]
  rfl

/-- A bit of the field, found in its number. -/
theorem testBit_value_sub {i : Nat} (hi : f.Covers i) (w : UInt32) :
    (f.value w).testBit (i - f.shift) = bitAt w i := by
  obtain ⟨hlow, hhigh⟩ := hi
  have hinside : i - f.shift < f.width := by omega
  rw [testBit_value, decide_eq_true hinside, Nat.add_sub_cancel' hlow, Bool.true_and]

/-- Only the bits of the field count. -/
theorem value_congr (h : ∀ i, f.Covers i → bitAt v i = bitAt w i) : f.value v = f.value w := by
  apply Nat.eq_of_testBit_eq
  intro j
  rw [testBit_value, testBit_value]
  by_cases hj : j < f.width
  · rw [h (f.shift + j) ⟨Nat.le_add_right _ _, Nat.add_lt_add_left hj _⟩]
  · simp [hj]

theorem value_lt (f : Field) (w : UInt32) : f.value w < 2 ^ f.width :=
  Nat.mod_lt _ (Nat.two_pow_pos _)

/-- Reading a field moves its bits to the low end of the word. -/
theorem bitAt_get (f : Field) (w : UInt32) (j : Nat) :
    bitAt (f.get w) j = (decide (j < f.width) && bitAt w (f.shift + j)) := by
  have hfit := f.fits
  have hwidth := f.width_pos
  rw [get, bitAt_shiftRight (by omega), bitAt_and, bitAt_mask, Bool.and_comm]
  congr 1
  simp [Covers]

/-- The number in a field is what reading the field gives. -/
theorem toNat_get (f : Field) (w : UInt32) : (f.get w).toNat = f.value w := by
  apply Nat.eq_of_testBit_eq
  intro j
  rw [testBit_value]
  exact bitAt_get f w j

theorem isSet_iff_value : f.isSet w = true ↔ f.value w ≠ 0 := by
  rw [isSet_iff]
  constructor
  · rintro ⟨i, hi, hbit⟩ hzero
    have htest := testBit_value_sub hi w
    rw [hzero, Nat.zero_testBit, hbit] at htest
    cases htest
  · intro h
    obtain ⟨j, hj⟩ := Nat.exists_testBit_of_ne_zero h
    rw [testBit_value, Bool.and_eq_true, decide_eq_true_eq] at hj
    exact ⟨f.shift + j, ⟨Nat.le_add_right _ _, Nat.add_lt_add_left hj.1 _⟩, hj.2⟩

theorem get_ne_zero_eq_isSet (f : Field) (w : UInt32) : (f.get w != 0) = f.isSet w := by
  rw [Bool.eq_iff_iff, isSet_iff_value, bne_iff_ne, ← toNat_get, ne_eq, ne_eq,
    ← UInt32.toNat_inj]
  rfl

/-- A single bit read as a flag is its number. -/
theorem toNat_isSet (h : f.width = 1) (w : UInt32) : (f.isSet w).toNat = f.value w := by
  have hlt := f.value_lt w
  rw [h] at hlt
  cases hset : f.isSet w with
  | true =>
      have hone := isSet_iff_value.mp hset
      show 1 = _
      omega
  | false =>
      have hzero : ¬ f.value w ≠ 0 := by
        rw [← isSet_iff_value, hset]
        exact Bool.false_ne_true
      show 0 = _
      omega

/-- A narrow field survives the way to a byte. -/
theorem toNat_get_toUInt8 (h : f.width ≤ 8) (w : UInt32) :
    (f.get w).toUInt8.toNat = f.value w := by
  have hlt : f.value w < 2 ^ 8 :=
    Nat.lt_of_lt_of_le (f.value_lt w) (Nat.pow_le_pow_right (by decide) h)
  rw [UInt32.toNat_toUInt8, toNat_get]
  exact Nat.mod_eq_of_lt hlt

/-- A number in place is cut to the width of the field. -/
theorem value_put (f : Field) (v : UInt32) : f.value (f.put v) = v.toNat % 2 ^ f.width := by
  apply Nat.eq_of_testBit_eq
  intro j
  rw [testBit_value, Nat.testBit_mod_two_pow]
  by_cases hj : j < f.width
  · have hcovers : f.Covers (f.shift + j) := ⟨Nat.le_add_right _ _, Nat.add_lt_add_left hj _⟩
    rw [bitAt_put, decide_eq_true hcovers, Nat.add_sub_cancel_left, Bool.true_and]
    rfl
  · simp [hj]

/-- A word that is a field's value in place beside other bits, none of them in the field. -/
theorem value_put_or (h : ∀ i, f.Covers i → bitAt w i = false) (v : UInt32) :
    f.value (w ||| f.put v) = v.toNat % 2 ^ f.width := by
  rw [← value_put]
  refine value_congr fun i hi => ?_
  rw [bitAt_or, h i hi, Bool.false_or]

theorem value_rewrite (f : Field) (w v : UInt32) :
    f.value (f.rewrite w v) = v.toNat % 2 ^ f.width := by
  refine value_put_or (fun i hi => ?_) v
  rw [bitAt_and_not, bitAt_mask, decide_eq_true hi, Bool.not_true, Bool.and_false]

/-- Outside the field, nothing is rewritten. -/
theorem bitAt_rewrite {i : Nat} (h : ¬ f.Covers i) (w v : UInt32) :
    bitAt (f.rewrite w v) i = bitAt w i := by
  have hput : bitAt (f.put v) i = false :=
    Bool.eq_false_iff.mpr fun hi => h (covers_of_bitAt_put hi)
  rw [rewrite, bitAt_or, bitAt_and_not, bitAt_mask, decide_eq_false h, hput, Bool.not_false,
    Bool.and_true, Bool.or_false]

theorem value_rewrite_of_apart (h : f.Apart g) (w v : UInt32) :
    f.value (g.rewrite w v) = f.value w :=
  value_congr fun i hi => bitAt_rewrite (apart_iff_covers.mp h i hi) w v

/-- Cleared, and nothing set. -/
theorem rewrite_zero (f : Field) (w : UInt32) : f.rewrite w 0 = w &&& ~~~f.mask := by
  have hput : f.put 0 = 0 := by simp [put]
  rw [rewrite, hput, UInt32.or_zero]

/-- A single bit that is set. -/
theorem rewrite_one (h : f.width = 1) (w : UInt32) : f.rewrite w 1 = w ||| f.mask := by
  refine eq_of_bitAt fun i _ => ?_
  by_cases hi : f.Covers i
  · obtain rfl : i = f.shift := by
      obtain ⟨hlow, hhigh⟩ := hi
      omega
    have hone : bitAt (f.put 1) f.shift = true := by
      rw [bitAt_put, decide_eq_true hi, Nat.sub_self]
      rfl
    rw [rewrite, bitAt_or, bitAt_or, hone, bitAt_mask, decide_eq_true hi, Bool.or_true,
      Bool.or_true]
  · rw [bitAt_rewrite hi, bitAt_or, bitAt_mask, decide_eq_false hi, Bool.or_false]

end BoardSupport.Field
