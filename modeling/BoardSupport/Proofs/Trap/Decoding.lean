import BoardSupport.Proofs.Trap.Cause

/-!
# Causes and traps, there and back

Reading a cause loses nothing: of an interrupt the cause can be worked out again, and of an
exception its code is the cause. An interrupt that is a line's has the number of that line's
bit in `mie` and `mip` as its code (`Interrupt.code_of_line`), so the three tables agree.

The other way round, some values are never read: a channel past the sixteenth, and an
unknown code that is too large or belongs to a line. The values that their causes read as
again are the canonical ones (`Interrupt.decode_cause_iff`).
-/

namespace BoardSupport

/-! ## Channels as numbers -/

/-- The lowest four bits of a word. -/
theorem toNat_and_low (w : UInt32) : (w &&& 0xF).toNat = w.toNat % 16 := by
  rw [UInt32.toNat_and]
  exact Nat.and_two_pow_sub_one_eq_mod w.toNat 4

theorem toNat_channel (channel : UInt8) : (channel &&& 0xF).toUInt32.toNat = channel.toNat % 16 := by
  rw [UInt8.toNat_toUInt32, UInt8.toNat_and]
  exact Nat.and_two_pow_sub_one_eq_mod channel.toNat 4

theorem Irq.toNat_bit_xirq (channel : UInt8) :
    (Irq.xirq channel).bit.toNat = 16 + channel.toNat % 16 := by
  have hsixteen : (16 : UInt32).toNat = 16 := rfl
  show (16 + (channel &&& 0xF).toUInt32).toNat = _
  rw [UInt32.toNat_add, toNat_channel, hsixteen]
  omega

/-- The numbers that belong to a line. -/
theorem Irq.exists_bit_iff {code : UInt32} :
    (∃ line : Irq, line.bit = code) ↔
      code = 3 ∨ code = 7 ∨ code = 11 ∨ (0x10 ≤ code ∧ code ≤ 0x1F) := by
  simp only [UInt32.le_iff_toNat_le, UInt32.reduceToNat]
  constructor
  · rintro ⟨line, rfl⟩
    cases line with
    | machineSoftware => exact Or.inl rfl
    | machineTimer => exact Or.inr (Or.inl rfl)
    | machineExternal => exact Or.inr (Or.inr (Or.inl rfl))
    | xirq channel =>
        have hbit := Irq.toNat_bit_xirq channel
        exact Or.inr (Or.inr (Or.inr (by omega)))
  · rintro (rfl | rfl | rfl | ⟨hlow, hhigh⟩)
    · exact ⟨.machineSoftware, rfl⟩
    · exact ⟨.machineTimer, rfl⟩
    · exact ⟨.machineExternal, rfl⟩
    · refine ⟨.xirq (UInt8.ofNat (code.toNat - 16)), UInt32.toNat_inj.mp ?_⟩
      rw [Irq.toNat_bit_xirq, UInt8.toNat_ofNat']
      omega

namespace Interrupt

/-- The line that the interrupt comes from, if it is known. -/
def line? : Interrupt → Option Irq
  | .machineSoftware => some .machineSoftware
  | .machineTimer => some .machineTimer
  | .machineExternal => some .machineExternal
  | .xirq channel => some (.xirq channel)
  | .unknown _ => none

/-- The interrupt is written in its one proper way: a channel has a number below sixteen,
and an unknown code fits beside the flag and belongs to no line. -/
def Canonical : Interrupt → Prop
  | .xirq channel => channel.toNat < 16
  | .unknown code => code.toNat < 0x80000000 ∧ ∀ line : Irq, line.bit ≠ code
  | _ => True

theorem toNat_code_xirq (channel : UInt8) :
    (Interrupt.xirq channel).code.toNat = 16 + channel.toNat % 16 := by
  show (0x10 ||| (channel &&& 0xF).toUInt32).toNat = _
  rw [UInt32.toNat_or, toNat_channel]
  exact (Nat.two_pow_add_eq_or_of_lt (i := 4) (Nat.mod_lt _ (by decide)) 1).symm

/-- A line's interrupt is numbered by the line's bit. -/
theorem code_of_line {i : Interrupt} {line : Irq} (h : i.line? = some line) :
    i.code = line.bit := by
  cases i with
  | machineSoftware | machineTimer | machineExternal =>
      cases h
      rfl
  | xirq channel =>
      cases h
      exact UInt32.toNat_inj.mp ((toNat_code_xirq channel).trans (Irq.toNat_bit_xirq channel).symm)
  | unknown code => cases h

/-- A code is the code of the interrupt that it names. -/
theorem code_ofCode (code : UInt32) : (ofCode code).code = code := by
  rcases ofCode_cases code with
    ⟨rfl, hi⟩ | ⟨rfl, hi⟩ | ⟨rfl, hi⟩ | ⟨⟨hlow, hhigh⟩, hi⟩ | ⟨-, hi⟩
  · rw [hi]
    rfl
  · rw [hi]
    rfl
  · rw [hi]
    rfl
  · have hlow' : 0x10 ≤ code.toNat := UInt32.le_iff_toNat_le.mp hlow
    have hhigh' : code.toNat ≤ 0x1F := UInt32.le_iff_toNat_le.mp hhigh
    rw [hi]
    apply UInt32.toNat_inj.mp
    rw [toNat_code_xirq, UInt32.toNat_toUInt8, toNat_and_low]
    omega
  · rw [hi]
    rfl

/-- A code that is no line's is unknown. -/
theorem ofCode_eq_unknown_iff (code : UInt32) :
    ofCode code = .unknown code ↔ ∀ line : Irq, line.bit ≠ code := by
  have hline : (∀ line : Irq, line.bit ≠ code) ↔
      ¬ (code = 3 ∨ code = 7 ∨ code = 11 ∨ (0x10 ≤ code ∧ code ≤ 0x1F)) := by
    rw [← Irq.exists_bit_iff, not_exists]
  rw [hline]
  grind [ofCode]

theorem ofCode_of_channel {code : UInt32} (h : 0x10 ≤ code ∧ code ≤ 0x1F) :
    ofCode code = .xirq (code &&& 0xF).toUInt8 := by
  grind [ofCode]

/-- A channel is read from its code when its number is below sixteen. -/
theorem ofCode_eq_xirq_iff (channel : UInt8) :
    ofCode (Interrupt.xirq channel).code = .xirq channel ↔ channel.toNat < 16 := by
  have hcode := toNat_code_xirq channel
  have hrange : 0x10 ≤ (Interrupt.xirq channel).code ∧ (Interrupt.xirq channel).code ≤ 0x1F := by
    simp only [UInt32.le_iff_toNat_le, UInt32.reduceToNat]
    omega
  rw [ofCode_of_channel hrange, xirq.injEq, ← UInt8.toNat_inj, UInt32.toNat_toUInt8, toNat_and_low]
  omega

/-- The canonical interrupts are those that their codes name, where the code leaves room for
the flag. -/
theorem canonical_iff (i : Interrupt) :
    i.Canonical ↔ i.code.toNat < 0x80000000 ∧ ofCode i.code = i := by
  cases i with
  | machineSoftware | machineTimer | machineExternal =>
      exact iff_of_true trivial ⟨by decide, rfl⟩
  | xirq channel =>
      have hcode := toNat_code_xirq channel
      rw [ofCode_eq_xirq_iff, Canonical, and_iff_right (by omega)]
  | unknown code =>
      show _ ↔ code.toNat < 0x80000000 ∧ ofCode code = .unknown code
      rw [ofCode_eq_unknown_iff, Canonical]

end Interrupt

/-! ## The flag -/

theorem bitAt_interruptFlag (i : Nat) : bitAt interruptFlag i = decide (i = 31) := by
  have hflag : interruptFlag = (Field.bit 31).mask := by decide
  rw [hflag, Field.bitAt_bit_mask]

/-- The code of a cause, below the flag. -/
theorem flag_or_code {cause : UInt32} (h : bitAt cause 31 = true) :
    interruptFlag ||| (cause &&& ~~~interruptFlag) = cause := by
  refine eq_of_bitAt fun i _ => ?_
  rw [bitAt_or, bitAt_and_not, bitAt_interruptFlag]
  by_cases hi : i = 31
  · rw [hi, h]
    rfl
  · simp [hi]

theorem code_and_not_flag {cause : UInt32} (h : bitAt cause 31 = false) :
    cause &&& ~~~interruptFlag = cause := by
  refine eq_of_bitAt fun i _ => ?_
  rw [bitAt_and_not, bitAt_interruptFlag]
  by_cases hi : i = 31
  · rw [hi, h]
    rfl
  · simp [hi]

namespace Trap

theorem decode_of_flag {cause : UInt32} (h : bitAt cause 31 = true) :
    decode cause = .interrupt (Interrupt.ofCode (cause &&& ~~~interruptFlag)) := by
  have hkind : (⟨cause, 0, 0⟩ : TrapContext).isInterrupt = true :=
    (TrapContext.isInterrupt_eq _).trans h
  exact TrapContext.trap_of_isInterrupt hkind

theorem decode_of_not_flag {cause : UInt32} (h : bitAt cause 31 = false) :
    decode cause = .exception (Exception.ofCode? cause) := by
  have hkind : (⟨cause, 0, 0⟩ : TrapContext).isInterrupt = false :=
    (TrapContext.isInterrupt_eq _).trans h
  have hdecode : decode cause = .exception (Exception.ofCode? (cause &&& ~~~interruptFlag)) :=
    if_neg (Bool.eq_false_iff.mp hkind)
  rw [hdecode, code_and_not_flag h]

end Trap

namespace Interrupt

/-- A cause has the flag, and below it the code. -/
theorem bitAt_cause (i : Interrupt) : bitAt i.cause 31 = true := by
  rw [cause, bitAt_or, bitAt_interruptFlag]
  rfl

theorem cause_and_not_flag (i : Interrupt) :
    i.cause &&& ~~~interruptFlag = i.code &&& ~~~interruptFlag := by
  refine eq_of_bitAt fun j _ => ?_
  rw [cause, bitAt_and_not, bitAt_and_not, bitAt_or]
  cases bitAt interruptFlag j with
  | true => rw [Bool.not_true, Bool.and_false, Bool.and_false]
  | false => rw [Bool.false_or]

/-- A code keeps all its bits when there is room for the flag. -/
theorem code_and_not_flag_iff (i : Interrupt) :
    i.code &&& ~~~interruptFlag = i.code ↔ i.code.toNat < 0x80000000 := by
  rw [← UInt32.toNat_inj, TrapContext.toNat_code]
  omega

/-- What a cause reads as is what was written when that was canonical. -/
theorem decode_cause_iff (i : Interrupt) : Trap.decode i.cause = .interrupt i ↔ i.Canonical := by
  rw [Trap.decode_of_flag i.bitAt_cause, cause_and_not_flag, Trap.interrupt.injEq, canonical_iff,
    ← code_and_not_flag_iff]
  constructor
  · intro h
    have hcode : i.code &&& ~~~interruptFlag = i.code := by
      rw [← code_ofCode (i.code &&& ~~~interruptFlag), h]
    exact ⟨hcode, by rwa [hcode] at h⟩
  · rintro ⟨hcode, h⟩
    rw [hcode, h]

end Interrupt

namespace Exception

theorem code_of_ofCode? {code : UInt32} {e : Exception} (h : ofCode? code = some e) :
    e.code = code := by
  unfold ofCode? at h
  split at h <;> cases h <;> rfl

/-- The codes of exceptions are those below sixteen but ten. -/
theorem isSome_ofCode?_iff {code : UInt32} :
    (ofCode? code).isSome = true ↔ code.toNat ≤ 15 ∧ code.toNat ≠ 10 := by
  have hfacts : ∀ n : Fin 16,
      (ofCode? (UInt32.ofNat n.val)).isSome = true ↔ n.val ≠ 10 := by decide
  by_cases hlow : code.toNat ≤ 15
  · have hcode : code = UInt32.ofNat code.toNat := UInt32.ofNat_toNat.symm
    have hfact := hfacts ⟨code.toNat, by omega⟩
    rw [← hcode] at hfact
    rw [hfact, and_iff_right hlow]
  · constructor
    · intro h
      obtain ⟨e, he⟩ := Option.isSome_iff_exists.mp h
      rw [← code_of_ofCode? he] at hlow
      cases e <;> exact absurd (by decide) hlow
    · rintro ⟨h, -⟩
      exact absurd h hlow

end Exception

/-- **Causes are read without loss.** A word with the flag reads as an interrupt that gives
the word back, and where the interrupt is a line's, the number of the line's bit is the word
without the flag. A word without it reads as an exception, one of the table for each number
below sixteen but ten, and then the number is the exception's. The kind of a trap is told by
the flag. Every code is found again in the cause of the interrupt that it names; and the
interrupts that their own causes read as are the canonical ones. -/
theorem Trap.decode_lossless :
    (∀ cause : UInt32, bitAt cause 31 = true → ∃ i, decode cause = .interrupt i ∧
      i.cause = cause ∧ ∀ line, i.line? = some line → line.bit = cause &&& ~~~interruptFlag) ∧
    (∀ cause : UInt32, bitAt cause 31 = false → ∃ e, decode cause = .exception e ∧
      (e.isSome = true ↔ cause.toNat ≤ 15 ∧ cause.toNat ≠ 10) ∧
      ∀ known, e = some known → known.code = cause) ∧
    (∀ ctx : TrapContext, ctx.isInterrupt = true ↔ ∃ i, ctx.trap = .interrupt i) ∧
    (∀ code, (Interrupt.ofCode code).cause = interruptFlag ||| code) ∧
    ∀ i : Interrupt, decode i.cause = .interrupt i ↔ i.Canonical := by
  refine ⟨?_, ?_, ?_, ?_, Interrupt.decode_cause_iff⟩
  · intro cause h
    refine ⟨_, decode_of_flag h, ?_, fun line hline => ?_⟩
    · rw [Interrupt.cause, Interrupt.code_ofCode, flag_or_code h]
    · rw [← Interrupt.code_of_line hline, Interrupt.code_ofCode]
  · intro cause h
    exact ⟨_, decode_of_not_flag h, Exception.isSome_ofCode?_iff,
      fun known => Exception.code_of_ofCode?⟩
  · intro ctx
    rw [TrapContext.isInterrupt_eq, TrapContext.trap]
    cases h : bitAt ctx.cause 31 with
    | true => simp [decode_of_flag h]
    | false => simp [decode_of_not_flag h]
  · intro code
    rw [Interrupt.cause, Interrupt.code_ofCode]

/-- The cause of the thirteenth channel, that of a call from machine mode, and a channel that
is written past the sixteenth and reads as another. -/
theorem Trap.decode_lossless_channel :
    (bitAt 0x8000001C 31 = true ∧ ∃ i, decode 0x8000001C = .interrupt i ∧
      i.line? = some (.xirq 12) ∧ i.cause = 0x8000001C ∧ (Irq.xirq 12).bit = 0x1C) ∧
    (bitAt 0xB 31 = false ∧ ∃ e, decode 0xB = .exception (some e) ∧ e.code = 0xB) ∧
    decode (Interrupt.xirq 28).cause ≠ .interrupt (.xirq 28) := by
  obtain ⟨hinterrupt, hexception, -, -, hcanonical⟩ := decode_lossless
  refine ⟨⟨by decide, ?_⟩, ⟨by decide, ?_⟩, ?_⟩
  · obtain ⟨i, hi, hcause, hline⟩ := hinterrupt 0x8000001C (by decide)
    have hread : decode 0x8000001C = .interrupt (.xirq 12) := by decide
    obtain rfl := interrupt.inj (hi.symm.trans hread)
    exact ⟨_, hi, rfl, hcause, hline _ rfl⟩
  · obtain ⟨e, he, hsome, hcode⟩ := hexception 0xB (by decide)
    obtain ⟨known, rfl⟩ := Option.isSome_iff_exists.mp (hsome.mpr (by decide))
    exact ⟨known, he, hcode known rfl⟩
  · rw [ne_eq, hcanonical]
    exact Nat.not_lt_of_le (by decide)

end BoardSupport
