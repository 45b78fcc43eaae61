import BoardSupport.Proofs.Register.Bits
import BoardSupport.Trap.Cause

/-!
# Which trap a cause stands for

The cause register holds the flag of interrupts above the code. The causes that a
router serves are those of the timer (`timerCause`) and of the sixteen external channels
(`IsChannel`); a cause has no other way to read as one of them.
-/

namespace BoardSupport

/-- The cause of a timer interrupt. -/
def timerCause : UInt32 := 0x80000007

/-- The cause is that of an external channel. -/
def IsChannel (cause : UInt32) : Prop := 0x80000010 ≤ cause ∧ cause ≤ 0x8000001F

/-- The cause is that of an interrupt line. -/
def IsLine (cause : UInt32) : Prop :=
  cause = 0x80000003 ∨ cause = timerCause ∨ cause = 0x8000000B ∨ IsChannel cause

/-- The line that a code names. -/
theorem Interrupt.ofCode_cases (code : UInt32) :
    code = 3 ∧ ofCode code = .machineSoftware ∨
    code = 7 ∧ ofCode code = .machineTimer ∨
    code = 11 ∧ ofCode code = .machineExternal ∨
    (0x10 ≤ code ∧ code ≤ 0x1F) ∧ ofCode code = .xirq (code &&& 0xF).toUInt8 ∨
    (code ≠ 3 ∧ code ≠ 7 ∧ code ≠ 11 ∧ ¬ (0x10 ≤ code ∧ code ≤ 0x1F)) ∧
      ofCode code = .unknown code := by
  unfold ofCode
  by_cases h₁ : code = 3
  · exact Or.inl ⟨h₁, if_pos h₁⟩
  by_cases h₂ : code = 7
  · exact Or.inr (Or.inl ⟨h₂, by rw [if_neg h₁, if_pos h₂]⟩)
  by_cases h₃ : code = 11
  · exact Or.inr (Or.inr (Or.inl ⟨h₃, by rw [if_neg h₁, if_neg h₂, if_pos h₃]⟩))
  rw [if_neg h₁, if_neg h₂, if_neg h₃]
  by_cases h₄ : 0x10 ≤ code ∧ code ≤ 0x1F
  · exact Or.inr (Or.inr (Or.inr (Or.inl ⟨h₄, if_pos h₄⟩)))
  · exact Or.inr (Or.inr (Or.inr (Or.inr ⟨⟨h₁, h₂, h₃, h₄⟩, if_neg h₄⟩)))

namespace TrapContext

theorem isInterrupt_eq (ctx : TrapContext) : ctx.isInterrupt = bitAt ctx.cause 31 := by
  have hflag : interruptFlag = (Field.bit 31).mask := by decide
  rw [isInterrupt, hflag]
  show (Field.bit 31).isSet ctx.cause = _
  rw [Field.isSet_bit]

variable {ctx : TrapContext}

/-- The flag is the highest bit, so it is set where the cause is large. -/
theorem isInterrupt_iff : ctx.isInterrupt = true ↔ 0x80000000 ≤ ctx.cause.toNat := by
  rw [isInterrupt_eq]
  show ctx.cause.toNat.testBit 31 = true ↔ _
  have hlt := ctx.cause.toNat_lt
  constructor
  · exact Nat.ge_two_pow_of_testBit
  · intro h
    exact Nat.testBit_of_two_pow_le_and_two_pow_add_one_gt h hlt

/-- The code of an interrupt, which is the cause without its flag. -/
theorem toNat_code (cause : UInt32) :
    (cause &&& ~~~interruptFlag).toNat = cause.toNat % 0x80000000 := by
  have hmask : ~~~interruptFlag = UInt32.ofNat (2 ^ 31 - 1) := by decide
  rw [hmask, UInt32.toNat_and]
  exact Nat.and_two_pow_sub_one_eq_mod cause.toNat 31

theorem trap_of_isInterrupt (h : ctx.isInterrupt = true) :
    ctx.trap = .interrupt (Interrupt.ofCode (ctx.cause &&& ~~~interruptFlag)) := if_pos h

/-! ## Lines -/

theorem isInterrupt_of_isLine (h : IsLine ctx.cause) : ctx.isInterrupt = true := by
  rw [isInterrupt_iff]
  rcases h with h | h | h | ⟨h, -⟩
  · rw [h]
    decide
  · rw [h]
    decide
  · rw [h]
    decide
  · have hge : 0x80000010 ≤ ctx.cause.toNat := UInt32.le_iff_toNat_le.mp h
    omega

theorem isInterrupt_timer (h : ctx.cause = timerCause) : ctx.isInterrupt = true :=
  isInterrupt_of_isLine (Or.inr (Or.inl h))

theorem isInterrupt_channel (h : IsChannel ctx.cause) : ctx.isInterrupt = true :=
  isInterrupt_of_isLine (Or.inr (Or.inr (Or.inr h)))

theorem trap_timer (h : ctx.cause = timerCause) : ctx.trap = .interrupt .machineTimer := by
  rw [trap, h]
  rfl

theorem channel_facts : ∀ k : Fin 16,
    Trap.decode (UInt32.ofNat (0x80000010 + k.val)) = .interrupt (.xirq (UInt8.ofNat k.val)) ∧
      (Irq.xirq (UInt8.ofNat k.val)).mask = (Field.bit (16 + k.val) (by omega)).mask := by
  decide

/-- A channel is numbered by the lowest four bits of its cause, and so is its line. -/
theorem exists_trap_channel (h : IsChannel ctx.cause) :
    ∃ channel, ctx.trap = .interrupt (.xirq channel) ∧
      ∀ i, bitAt (Irq.xirq channel).mask i = decide (i = 16 + ctx.cause.toNat % 16) := by
  obtain ⟨hlow, hhigh⟩ := h
  have hlow' : 0x80000010 ≤ ctx.cause.toNat := UInt32.le_iff_toNat_le.mp hlow
  have hhigh' : ctx.cause.toNat ≤ 0x8000001F := UInt32.le_iff_toNat_le.mp hhigh
  have hk : ctx.cause.toNat % 16 < 16 := Nat.mod_lt _ (by decide)
  have hcause : ctx.cause = UInt32.ofNat (0x80000010 + ctx.cause.toNat % 16) := by
    apply UInt32.toNat_inj.mp
    rw [UInt32.toNat_ofNat']
    omega
  obtain ⟨htrap, hmask⟩ := channel_facts ⟨ctx.cause.toNat % 16, hk⟩
  rw [← hcause] at htrap
  refine ⟨_, htrap, fun i => ?_⟩
  rw [hmask, Field.bitAt_bit_mask]

/-- The cause and the code of an interrupt are two ways to say the same number. -/
theorem code_eq_iff (h : ctx.isInterrupt = true) (n : UInt32) :
    ctx.cause &&& ~~~interruptFlag = n ↔ ctx.cause.toNat = 0x80000000 + n.toNat := by
  have hlow := isInterrupt_iff.mp h
  have hlt := ctx.cause.toNat_lt
  have hmod := toNat_code ctx.cause
  constructor
  · rintro rfl
    omega
  · intro hn
    apply UInt32.toNat_inj.mp
    omega

theorem code_channel_iff (h : ctx.isInterrupt = true) :
    (0x10 ≤ ctx.cause &&& ~~~interruptFlag ∧ ctx.cause &&& ~~~interruptFlag ≤ 0x1F) ↔
      IsChannel ctx.cause := by
  have hcode := (code_eq_iff h _).mp rfl
  rw [IsChannel]
  simp only [UInt32.le_iff_toNat_le, UInt32.reduceToNat]
  omega

/-- An interrupt by its cause: one line of its own, or one of the unknown. -/
theorem trap_cases (h : ctx.isInterrupt = true) :
    ctx.cause = 0x80000003 ∧ ctx.trap = .interrupt .machineSoftware ∨
    ctx.cause = timerCause ∧ ctx.trap = .interrupt .machineTimer ∨
    ctx.cause = 0x8000000B ∧ ctx.trap = .interrupt .machineExternal ∨
    IsChannel ctx.cause ∧ (∃ channel, ctx.trap = .interrupt (.xirq channel)) ∨
    ¬ IsLine ctx.cause ∧ ∃ code, ctx.trap = .interrupt (.unknown code) := by
  have hcode := code_eq_iff h
  rw [trap_of_isInterrupt h]
  rcases Interrupt.ofCode_cases (ctx.cause &&& ~~~interruptFlag) with
    ⟨hc, hi⟩ | ⟨hc, hi⟩ | ⟨hc, hi⟩ | ⟨hc, hi⟩ | ⟨⟨hc₁, hc₂, hc₃, hc₄⟩, hi⟩
  · exact Or.inl ⟨UInt32.toNat_inj.mp ((hcode _).mp hc), congrArg _ hi⟩
  · exact Or.inr (Or.inl ⟨UInt32.toNat_inj.mp ((hcode _).mp hc), congrArg _ hi⟩)
  · exact Or.inr (Or.inr (Or.inl ⟨UInt32.toNat_inj.mp ((hcode _).mp hc), congrArg _ hi⟩))
  · exact Or.inr (Or.inr (Or.inr (Or.inl ⟨(code_channel_iff h).mp hc, _, congrArg _ hi⟩)))
  · refine Or.inr (Or.inr (Or.inr (Or.inr ⟨?_, _, congrArg _ hi⟩)))
    rintro (hl | hl | hl | hl)
    · exact hc₁ ((hcode 3).mpr (congrArg UInt32.toNat hl))
    · exact hc₂ ((hcode 7).mpr (congrArg UInt32.toNat hl))
    · exact hc₃ ((hcode 11).mpr (congrArg UInt32.toNat hl))
    · exact hc₄ ((code_channel_iff h).mpr hl)

end TrapContext

end BoardSupport
