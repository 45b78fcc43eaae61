import BoardSupport.Proofs.Control.Aliases
import BoardSupport.Proofs.Program.Exchanges
import BoardSupport.Proofs.Register.Values

/-!
# Fields are exact

A field can be built exactly from a place and a width that fit in a word
(`exists_make_iff`). The operations of a field that was built take no step that checked
arithmetic would refuse (`mask?_eq`, `get?_eq`, `put?_eq`, `isSet?_eq`), and each is a
quotient, a remainder or a product by powers of two. A word is told by what it holds in a
field and by its bits outside (`eq_of_value_eq`), so an update through a pair of aliases
leaves one word and no other (`eq_rewrite_iff`). `make_exact` says all of this.
-/

namespace BoardSupport

/-! ## Checked arithmetic -/

/-- A difference, unless it is below zero. -/
def difference? (a b : Nat) : Option Nat := if b ≤ a then some (a - b) else none

/-- A left shift, unless it is by the width of the word or more. -/
def shiftLeft? (w : UInt32) (n : Nat) : Option UInt32 :=
  if n < 32 then some (w <<< UInt32.ofNat n) else none

/-- A right shift, unless it is by the width of the word or more. -/
def shiftRight? (w : UInt32) (n : Nat) : Option UInt32 :=
  if n < 32 then some (w >>> UInt32.ofNat n) else none

namespace Field

variable {f : Field} {u v w : UInt32}

/-! ### Operations with every step checked -/

def mask? (f : Field) : Option UInt32 := do
  let spare ← difference? 32 f.width
  let ones ← shiftRight? 0xFFFFFFFF spare
  shiftLeft? ones f.shift

def get? (f : Field) (word : UInt32) : Option UInt32 := do
  let mask ← f.mask?
  shiftRight? (word &&& mask) f.shift

def put? (f : Field) (value : UInt32) : Option UInt32 := do
  let placed ← shiftLeft? value f.shift
  let mask ← f.mask?
  return placed &&& mask

def isSet? (f : Field) (word : UInt32) : Option Bool := do
  let mask ← f.mask?
  return word &&& mask != 0

theorem shift_lt (f : Field) : f.shift < 32 := by
  have hwidth := f.width_pos
  have hfit := f.fits
  omega

theorem shiftLeft?_shift (f : Field) (w : UInt32) :
    shiftLeft? w f.shift = some (w <<< UInt32.ofNat f.shift) := if_pos f.shift_lt

theorem shiftRight?_shift (f : Field) (w : UInt32) :
    shiftRight? w f.shift = some (w >>> UInt32.ofNat f.shift) := if_pos f.shift_lt

theorem mask?_eq (f : Field) : f.mask? = some f.mask := by
  have hwidth := f.width_pos
  have hfit := f.fits
  have hspare : difference? 32 f.width = some (32 - f.width) := if_pos (by omega)
  have hones : shiftRight? 0xFFFFFFFF (32 - f.width)
      = some (0xFFFFFFFF >>> UInt32.ofNat (32 - f.width)) := if_pos (by omega)
  rw [mask?, hspare]
  show (shiftRight? 0xFFFFFFFF (32 - f.width)).bind (shiftLeft? · f.shift) = _
  rw [hones]
  exact f.shiftLeft?_shift _

theorem get?_eq (f : Field) (w : UInt32) : f.get? w = some (f.get w) := by
  rw [get?, mask?_eq]
  exact f.shiftRight?_shift _

theorem put?_eq (f : Field) (v : UInt32) : f.put? v = some (f.put v) := by
  rw [put?, mask?_eq, shiftLeft?_shift]
  rfl

theorem isSet?_eq (f : Field) (w : UInt32) : f.isSet? w = some (f.isSet w) := by
  rw [isSet?, mask?_eq]
  rfl

/-! ## Which fields can be built -/

section Make

variable {shift width : UInt32}

theorem make_eq_ok (hpos : 0 < width.toNat) (hfit : shift.toNat + width.toNat ≤ 32) :
    make shift width = .ok ⟨shift.toNat, width.toNat, hpos, hfit⟩ := by
  have hsum : shift.toNat + width.toNat < UInt32.size := Nat.lt_of_le_of_lt hfit (by decide)
  rw [make, dif_pos hpos, if_pos hsum, dif_pos hfit]

/-- A sum past 32-bit arithmetic is told from a field that only leaves the word. -/
theorem make_eq_error (h : ¬ (0 < width.toNat ∧ shift.toNat + width.toNat ≤ 32)) :
    make shift width = .error
      (if 0 < width.toNat ∧ 2 ^ 32 ≤ shift.toNat + width.toNat then .addOverflow
        else .fieldBounds) := by
  have hsize : UInt32.size = 2 ^ 32 := rfl
  unfold make
  by_cases hpos : 0 < width.toNat
  · rw [dif_pos hpos]
    by_cases hsum : shift.toNat + width.toNat < UInt32.size
    · rw [if_pos hsum, dif_neg fun hfit => h ⟨hpos, hfit⟩, if_neg (by omega)]
    · rw [if_neg hsum, if_pos (by omega)]
  · rw [dif_neg hpos, if_neg fun hover => hpos hover.1]

theorem exists_make_iff : (∃ f, make shift width = .ok f) ↔
    0 < width.toNat ∧ shift.toNat + width.toNat ≤ 32 := by
  constructor
  · rintro ⟨f, hf⟩
    by_contra h
    rw [make_eq_error h] at hf
    cases hf
  · rintro ⟨hpos, hfit⟩
    exact ⟨_, make_eq_ok hpos hfit⟩

theorem shift_width_of_make (h : make shift width = .ok f) :
    f.shift = shift.toNat ∧ f.width = width.toNat := by
  obtain ⟨hpos, hfit⟩ := exists_make_iff.mp ⟨f, h⟩
  cases (make_eq_ok hpos hfit).symm.trans h
  exact ⟨rfl, rfl⟩

end Make

/-! ## Fields in numbers -/

theorem toNat_mask (f : Field) : f.mask.toNat = (2 ^ f.width - 1) * 2 ^ f.shift := by
  apply Nat.eq_of_testBit_eq
  intro i
  have hcovers : decide (f.Covers i)
      = (decide (f.shift ≤ i) && decide (i - f.shift < f.width)) := by
    rw [← Bool.decide_and, decide_eq_decide]
    unfold Covers
    omega
  rw [Nat.testBit_mul_two_pow, Nat.testBit_two_pow_sub_one, ← hcovers]
  exact bitAt_mask f i

theorem toNat_get_put (f : Field) (v : UInt32) :
    (f.get (f.put v)).toNat = v.toNat % 2 ^ f.width := by
  rw [toNat_get, value_put]

/-- What a field holds, put back in its place, is what the mask leaves of the word. -/
theorem put_get (f : Field) (w : UInt32) : f.put (f.get w) = w &&& f.mask := by
  refine eq_of_bitAt fun i _ => ?_
  rw [bitAt_put, bitAt_get, bitAt_and, bitAt_mask]
  by_cases hi : f.Covers i
  · obtain ⟨hlow, hhigh⟩ := hi
    have hinside : i - f.shift < f.width := by omega
    rw [decide_eq_true hinside, Nat.add_sub_cancel' hlow, Bool.true_and, Bool.and_comm]
  · rw [decide_eq_false hi, Bool.false_and, Bool.and_false]

theorem put_and_not_mask (f : Field) (v : UInt32) : f.put v &&& ~~~f.mask = 0 := by
  refine eq_of_bitAt fun i _ => ?_
  rw [bitAt_and_not, bitAt_put, bitAt_mask, bitAt_zero]
  cases decide (f.Covers i) <;> simp

theorem isSet_iff_get (f : Field) (w : UInt32) : f.isSet w = true ↔ f.get w ≠ 0 := by
  rw [← get_ne_zero_eq_isSet, bne_iff_ne]

/-! ## The word that an update leaves -/

theorem bitAt_and_not_mask {i : Nat} (hi : ¬ f.Covers i) (w : UInt32) :
    bitAt (w &&& ~~~f.mask) i = bitAt w i := by
  rw [bitAt_and_not, bitAt_mask, decide_eq_false hi, Bool.not_false, Bool.and_true]

/-- A word is what it holds in a field and what it has outside. -/
theorem eq_of_value_eq (hvalue : f.value u = f.value w)
    (hrest : u &&& ~~~f.mask = w &&& ~~~f.mask) : u = w := by
  refine eq_of_bitAt fun i _ => ?_
  by_cases hi : f.Covers i
  · rw [← testBit_value_sub hi, hvalue, testBit_value_sub hi]
  · rw [← bitAt_and_not_mask hi u, hrest, bitAt_and_not_mask hi]

theorem rewrite_and_not_mask (f : Field) (w v : UInt32) :
    f.rewrite w v &&& ~~~f.mask = w &&& ~~~f.mask := by
  refine eq_of_bitAt fun i _ => ?_
  by_cases hi : f.Covers i
  · rw [bitAt_and_not, bitAt_and_not, bitAt_mask, decide_eq_true hi, Bool.not_true,
      Bool.and_false, Bool.and_false]
  · rw [bitAt_and_not_mask hi, bitAt_rewrite hi, bitAt_and_not_mask hi]

theorem eq_rewrite_iff : u = f.rewrite w v ↔
    (f.get u).toNat = v.toNat % 2 ^ f.width ∧ u &&& ~~~f.mask = w &&& ~~~f.mask := by
  rw [toNat_get]
  constructor
  · rintro rfl
    exact ⟨value_rewrite f w v, rewrite_and_not_mask f w v⟩
  · rintro ⟨hvalue, hrest⟩
    exact eq_of_value_eq (hvalue.trans (value_rewrite f w v).symm)
      (hrest.trans (rewrite_and_not_mask f w v).symm)

end Field

/-! ## Updates through aliases -/

open Program

/-- Writes to two registers of the block set and clear bits of a word. -/
structure AliasedWord {σ : Type} (p : Platform σ) (b : Block) (setOffset clearOffset : Nat)
    (word : σ → UInt32) : Prop where
  sets : ∀ s value, ∃ t, p (.store b setOffset value) s = .returned () t ∧
    word t = word s ||| value
  clears : ∀ s value, ∃ t, p (.store b clearOffset value) s = .returned () t ∧
    word t = word s &&& ~~~value

/-- The control word of a FIFO block has aliases. -/
theorem HasControlAliases.aliasedWord {δ : Type} {bus : Bus δ} {control : δ → UInt32}
    (h : HasControlAliases bus control) (b : Block) :
    AliasedWord (Machine.platform bus) b Fifo.Register.controlSet.offset
      Fifo.Register.controlClear.offset fun m => control m.device where
  sets := by
    intro m value
    obtain ⟨d, hd, hcontrol⟩ := h b Fifo.Register.controlSet.offset value m.device
    exact ⟨_, Machine.platform_store hd, hcontrol⟩
  clears := by
    intro m value
    obtain ⟨d, hd, hcontrol⟩ := h b Fifo.Register.controlClear.offset value m.device
    exact ⟨_, Machine.platform_store hd, hcontrol⟩

/-- The two writes of an update: the whole field is cleared, then its new ones are set. -/
def updateTrace (b : Block) (setOffset clearOffset : Nat) (f : Field) (value : UInt32) :
    List Exchange :=
  [⟨.store b clearOffset f.mask, ()⟩, ⟨.store b setOffset (f.put value), ()⟩]

theorem AliasedWord.exists_completes {σ : Type} {p : Platform σ} {b : Block}
    {setOffset clearOffset : Nat} {word : σ → UInt32}
    (h : AliasedWord p b setOffset clearOffset word) (f : Field) (value : UInt32) (s : σ) :
    ∃ t, Completes p (b.updateField setOffset clearOffset f value) s
        (updateTrace b setOffset clearOffset f value) () t ∧
      word t = f.rewrite (word s) value := by
  obtain ⟨mid, hclear, hmid⟩ := h.clears s f.mask
  obtain ⟨t, hset, ht⟩ := h.sets mid (f.put value)
  refine ⟨t, (completes_request hclear).bind (completes_request hset), ?_⟩
  rw [ht, hmid, Field.rewrite]

namespace Field

/-- The operations of a field with its lowest bit at `shift` and `width` bits, in numbers. -/
structure Exact (f : Field) (shift width : Nat) : Prop where
  mask_checked : f.mask? = some f.mask
  get_checked : ∀ w, f.get? w = some (f.get w)
  put_checked : ∀ v, f.put? v = some (f.put v)
  isSet_checked : ∀ w, f.isSet? w = some (f.isSet w)
  mask : f.mask.toNat = (2 ^ width - 1) * 2 ^ shift
  get : ∀ w, (f.get w).toNat = w.toNat / 2 ^ shift % 2 ^ width
  get_put : ∀ v, (f.get (f.put v)).toNat = v.toNat % 2 ^ width
  put_get : ∀ w, f.put (f.get w) = w &&& f.mask
  isSet : ∀ w, f.isSet w = true ↔ f.get w ≠ 0
  put : ∀ v, f.put v &&& ~~~f.mask = 0
  /-- An update makes two writes; it leaves the one word that holds the low bits of the value
  in the field and is the same outside. -/
  update : ∀ {σ : Type} (p : Platform σ) (b : Block) (setOffset clearOffset : Nat)
    (word : σ → UInt32), AliasedWord p b setOffset clearOffset word → ∀ s v, ∃ t,
      Completes p (b.updateField setOffset clearOffset f v) s
        (updateTrace b setOffset clearOffset f v) () t ∧
      ∀ u, u = word t ↔
        (f.get u).toNat = v.toNat % 2 ^ width ∧ u &&& ~~~f.mask = word s &&& ~~~f.mask

theorem exact_self (f : Field) : f.Exact f.shift f.width where
  mask_checked := f.mask?_eq
  get_checked := f.get?_eq
  put_checked := f.put?_eq
  isSet_checked := f.isSet?_eq
  mask := f.toNat_mask
  get := f.toNat_get
  get_put := f.toNat_get_put
  put_get := f.put_get
  isSet := f.isSet_iff_get
  put := f.put_and_not_mask
  update := by
    intro σ p b setOffset clearOffset word haliased s v
    obtain ⟨t, hupdate, hword⟩ := haliased.exists_completes f v s
    refine ⟨t, hupdate, fun u => ?_⟩
    rw [hword]
    exact eq_rewrite_iff

/-- **A field that can be built is exact.** A field can be built exactly from a width above
zero and a place that leave it inside the word; any other pair is a fault, which says whether
the sum left 32-bit arithmetic. No operation of a field that was built makes a shift by the
width of the word or more, and each is what its place and width say. -/
theorem make_exact (shift width : UInt32) :
    ((∃ f, make shift width = .ok f) ↔ 0 < width.toNat ∧ shift.toNat + width.toNat ≤ 32) ∧
    (¬ (0 < width.toNat ∧ shift.toNat + width.toNat ≤ 32) → make shift width = .error
      (if 0 < width.toNat ∧ 2 ^ 32 ≤ shift.toNat + width.toNat then .addOverflow
        else .fieldBounds)) ∧
    ∀ f, make shift width = .ok f → f.Exact shift.toNat width.toNat := by
  refine ⟨exists_make_iff, make_eq_error, fun f hf => ?_⟩
  obtain ⟨hshift, hwidth⟩ := shift_width_of_make hf
  rw [← hshift, ← hwidth]
  exact f.exact_self

/-- All of a word, two bits of a control word, a field that leaves its word, and a sum that
leaves 32-bit arithmetic. -/
theorem make_exact_edges :
    let b : Block := MemoryMap.full.uart0
    let p := Machine.platform UartModel.bus
    let m : Machine UartModel := { device := { control := 0x600001B2 } }
    (∃ f, make 0 32 = .ok f ∧ f.mask.toNat = 2 ^ 32 - 1 ∧ f.mask? = some f.mask) ∧
    (∃ f, make 27 2 = .ok f ∧ (f.get (f.put 7)).toNat = 3 ∧
      ∃ t trace, Completes p (b.updateField Fifo.Register.controlSet.offset
          Fifo.Register.controlClear.offset f 7) m trace () t ∧
        t.device.control = 0x780001B2) ∧
    make 31 2 = .error .fieldBounds ∧ make 0xFFFFFFFF 1 = .error .addOverflow := by
  intro b p m
  obtain ⟨-, -, hall⟩ := make_exact 0 32
  obtain ⟨-, -, hpart⟩ := make_exact 27 2
  obtain ⟨-, hlong, -⟩ := make_exact 31 2
  obtain ⟨-, hover, -⟩ := make_exact 0xFFFFFFFF 1
  have hword : make 0 32 = .ok (.span 0 32) := rfl
  have hparity : make 27 2 = .ok (.span 27 2) := rfl
  refine ⟨⟨_, hword, (hall _ hword).mask, (hall _ hword).mask_checked⟩,
    ⟨_, hparity, (hpart _ hparity).get_put 7, ?_⟩, hlong (by decide), hover (by decide)⟩
  obtain ⟨t, hupdate, hunique⟩ := (hpart _ hparity).update p b _ _ _
    (UartModel.hasControlAliases.aliasedWord b) m 7
  exact ⟨t, _, hupdate, ((hunique 0x780001B2).mpr ⟨by decide, by decide⟩).symm⟩

end Field

end BoardSupport
