import BoardSupport.Device.Spi
import BoardSupport.Device.Uart
import BoardSupport.Proofs.Device.Access
import BoardSupport.Proofs.Register.Bits

/-!
# Writes through the aliases of a control word

A write to a FIFO block replaces the control word, sets bits of it, clears bits of
it or leaves it alone, by the register at its offset (`controlAfter`); both block
models take every write and follow this (`HasControlAliases`).

`AliasWrites S` describes a program that only writes, never to the control word
itself, and through its aliases only to bits in `S`. What such a program does next
does not depend on the state (`AliasWrites.step_cases`), so a run of it keeps two
control words as much alike as they were (`AliasWrites.advance_agree`) and leaves the
bits outside `S` as they were (`AliasWrites.advance_outside`).
-/

namespace BoardSupport

open Program

/-! ## Words that agree on some bits -/

/-- The words have the same bits in `S`. -/
def AgreeOn (S : Nat → Prop) (v w : UInt32) : Prop := ∀ i, S i → bitAt v i = bitAt w i

namespace AgreeOn

variable {S T : Nat → Prop} {u v w : UInt32}

theorem refl (S : Nat → Prop) (w : UInt32) : AgreeOn S w w := fun _ _ => rfl

theorem trans (h : AgreeOn S u v) (h' : AgreeOn S v w) : AgreeOn S u w :=
  fun i hi => (h i hi).trans (h' i hi)

theorem mono (h : AgreeOn S v w) (hTS : ∀ i, T i → S i) : AgreeOn T v w :=
  fun i hi => h i (hTS i hi)

end AgreeOn

/-! ## One write -/

/-- The control word of a FIFO block after a write. -/
def controlAfter (offset : Nat) (value control : UInt32) : UInt32 :=
  match Fifo.Register.ofOffset? offset with
  | some .control => value
  | some .controlSet => control ||| value
  | some .controlClear => control &&& ~~~value
  | _ => control

/-- The write is not to the control word, and changes only bits in `S` of it. -/
def TouchesOnly (S : Nat → Prop) (offset : Nat) (value : UInt32) : Prop :=
  match Fifo.Register.ofOffset? offset with
  | some .control => False
  | some .controlSet => ∀ i, bitAt value i = true → S i
  | some .controlClear => ∀ i, bitAt value i = true → S i
  | _ => True

/-- The block takes every write, and its control word follows. -/
def HasControlAliases {δ : Type} (bus : Bus δ) (control : δ → UInt32) : Prop :=
  ∀ b offset value d, ∃ d', bus.store b offset value d = .ok d' ∧
    control d' = controlAfter offset value (control d)

section OneWrite

variable {S T : Nat → Prop} {offset : Nat} {value v w : UInt32}

theorem controlAfter_agree (hvw : AgreeOn T v w) :
    AgreeOn T (controlAfter offset value v) (controlAfter offset value w) := by
  intro i hi
  have hbit := hvw i hi
  unfold controlAfter
  split
  · rfl
  · rw [bitAt_or, bitAt_or, hbit]
  · rw [bitAt_and_not, bitAt_and_not, hbit]
  · exact hbit

theorem controlAfter_outside (h : TouchesOnly S offset value) (w : UInt32) :
    AgreeOn (fun i => ¬ S i) (controlAfter offset value w) w := by
  intro i hi
  unfold TouchesOnly at h
  unfold controlAfter
  split at h
  · exact h.elim
  · have hv : bitAt value i = false := Bool.eq_false_iff.mpr fun hv => hi (h i hv)
    rw [bitAt_or, hv, Bool.or_false]
  · have hv : bitAt value i = false := Bool.eq_false_iff.mpr fun hv => hi (h i hv)
    rw [bitAt_and_not, hv, Bool.not_false, Bool.and_true]
  · rfl

theorem TouchesOnly.mono (h : TouchesOnly S offset value) (hST : ∀ i, S i → T i) :
    TouchesOnly T offset value := by
  unfold TouchesOnly at h ⊢
  split at h
  · exact h.elim
  · exact fun i hi => hST i (h i hi)
  · exact fun i hi => hST i (h i hi)
  · trivial

theorem touchesOnly_statusSet (side : Fifo.Side) :
    TouchesOnly S (Fifo.Register.statusSet side).offset value := by
  cases side <;> exact trivial

theorem touchesOnly_statusClear (side : Fifo.Side) :
    TouchesOnly S (Fifo.Register.statusClear side).offset value := by
  cases side <;> exact trivial

end OneWrite

theorem UartModel.control_send (d : UartModel) (byte : UInt8) :
    (d.send byte).control = d.control := by
  simp only [send]
  split
  · split
    · rfl
    · rfl
  · rfl

theorem UartModel.hasControlAliases : HasControlAliases UartModel.bus UartModel.control := by
  intro b offset value d
  refine ⟨d.store offset value, rfl, ?_⟩
  unfold store act controlAfter
  cases Fifo.Register.ofOffset? offset with
  | none => rfl
  | some r =>
      cases r with
      | data => exact d.control_send value.toUInt8
      | status side => rfl
      | statusSet side => cases side <;> rfl
      | statusClear side => cases side <;> rfl
      | _ => rfl

theorem SpiModel.control_shift (d : SpiModel) (byte : UInt8) :
    (d.shift byte).control = d.control := by
  simp only [shift]
  split
  · split
    · rfl
    · rfl
  · rfl

theorem SpiModel.hasControlAliases : HasControlAliases SpiModel.bus SpiModel.control := by
  intro b offset value d
  refine ⟨d.store offset value, rfl, ?_⟩
  unfold store controlAfter
  cases Fifo.Register.ofOffset? offset with
  | none => rfl
  | some r =>
      cases r with
      | data => exact d.control_shift value.toUInt8
      | status side => rfl
      | statusSet side => cases side <;> rfl
      | statusClear side => cases side <;> rfl
      | _ => rfl

/-! ## Programs that only write -/

/-- The program makes at most `n` writes and no other requests; each changes at most
the bits in `S` of the control word, through its aliases. It ends in a fault only if
`refused`. -/
inductive AliasWrites (S : Nat → Prop) (refused : Prop) {α : Type} : Nat → Program α → Prop
  | done {n : Nat} (v : α) : AliasWrites S refused n (.done v)
  | fault {n : Nat} (c : Fault) (h : refused) : AliasWrites S refused n (.fault c)
  | store {n : Nat} {b : Block} {offset : Nat} {value : UInt32} {k : Unit → Program α}
      (h : TouchesOnly S offset value) (hk : AliasWrites S refused n (k ())) :
      AliasWrites S refused (n + 1) (.ask (.store b offset value) k)

namespace AliasWrites

variable {α β : Type} {S T : Nat → Prop} {refused refused' : Prop} {n k : Nat}

theorem mono {x : Program α} (h : AliasWrites S refused n x) (hST : ∀ i, S i → T i)
    (hr : refused → refused') (hnk : n ≤ k) : AliasWrites T refused' k x := by
  induction h generalizing k with
  | done v => exact .done v
  | fault c h => exact .fault c (hr h)
  | store h _ ih =>
      obtain ⟨k, rfl⟩ : ∃ j, k = j + 1 := ⟨k - 1, by omega⟩
      exact .store (h.mono hST) (ih (Nat.le_of_succ_le_succ hnk))

theorem bind {x : Program α} {f : α → Program β} (hx : AliasWrites S refused n x)
    (hf : ∀ v, AliasWrites S refused k (f v)) : AliasWrites S refused (n + k) (x.bind f) := by
  induction hx with
  | done v => exact (hf v).mono (fun _ h => h) id (Nat.le_add_left k _)
  | fault c h => exact .fault c h
  | store h _ ih =>
      rw [Nat.succ_add]
      exact .store h ih

/-! ### Writes of the drivers -/

theorem write {b : Block} {offset : Nat} {value : UInt32} (h : TouchesOnly S offset value) :
    AliasWrites S refused 1 (b.write offset value) := .store h (.done ())

/-- Ones written to an alias of the control word, all of them in one field. -/
theorem write_mask {b : Block} {r : Fifo.Register} (hr : r = .controlSet ∨ r = .controlClear)
    (field : Field) : AliasWrites field.Covers refused 1 (b.write r.offset field.mask) := by
  have hmask : ∀ i, bitAt field.mask i = true → field.Covers i := by
    intro i hi
    rw [Field.bitAt_mask] at hi
    exact of_decide_eq_true hi
  refine write ?_
  rcases hr with rfl | rfl
  · exact hmask
  · exact hmask

/-- A field of the control word is rewritten through the aliases in two writes. -/
theorem updateField (b : Block) (field : Field) (value : UInt32) :
    AliasWrites field.Covers refused 2 (b.updateField Fifo.Register.controlSet.offset
      Fifo.Register.controlClear.offset field value) := by
  refine (write_mask (Or.inr rfl) field).bind fun _ => write ?_
  exact fun i hi => Field.covers_of_bitAt_put hi

/-- A field of a status word is not one of the control word. -/
theorem updateField_status (b : Block) (side : Fifo.Side) (field : Field) (value : UInt32) :
    AliasWrites S refused 2 (b.updateField (Fifo.Register.statusSet side).offset
      (Fifo.Register.statusClear side).offset field value) := by
  exact (write (touchesOnly_statusClear side)).bind fun _ => write (touchesOnly_statusSet side)

/-! ### Steps -/

section Steps

variable {δ : Type} {bus : Bus δ} {control : δ → UInt32} {x : Program α}

/-- A program of alias writes has ended, or its next step is a write, after which it
goes on in the same way from every state. -/
theorem step_cases (hbus : HasControlAliases bus control) (hx : AliasWrites S refused n x) :
    x.Finished ∨ ∃ offset value y, TouchesOnly S offset value ∧
      AliasWrites S refused (n - 1) y ∧ ∀ m : Machine δ, ∃ d,
        control d = controlAfter offset value (control m.device) ∧
        Program.step (Machine.platform bus) x m = (y, { m with device := d }) := by
  cases hx with
  | done v => exact Or.inl trivial
  | fault c h => exact Or.inl trivial
  | @store n b offset value k h hk =>
      refine Or.inr ⟨offset, value, k (), h, hk, fun m => ?_⟩
      obtain ⟨d, hd, hc⟩ := hbus b offset value m.device
      refine ⟨d, hc, ?_⟩
      rw [Program.step, Machine.platform_store hd]

theorem step (hbus : HasControlAliases bus control) (hx : AliasWrites S refused n x)
    (m : Machine δ) : AliasWrites S refused n (Program.step (Machine.platform bus) x m).1 := by
  rcases hx.step_cases hbus with hend | ⟨offset, value, y, -, hy, hstep⟩
  · rw [step_of_finished hend]
    exact hx
  · obtain ⟨d, -, hd⟩ := hstep m
    rw [hd]
    exact hy.mono (fun _ h => h) id (Nat.sub_le n 1)

/-- From states with control words that agree on some bits, the same program is left
and the control words agree on those bits still. -/
theorem advance_agree (hbus : HasControlAliases bus control) (hx : AliasWrites S refused n x)
    (k : Nat) {m m' : Machine δ} (hm : AgreeOn T (control m.device) (control m'.device)) :
    (Program.advance (Machine.platform bus) k x m).1
        = (Program.advance (Machine.platform bus) k x m').1 ∧
      AgreeOn T (control (Program.advance (Machine.platform bus) k x m).2.device)
        (control (Program.advance (Machine.platform bus) k x m').2.device) := by
  induction k generalizing n x m m' with
  | zero => exact ⟨rfl, hm⟩
  | succ k ih =>
      rcases hx.step_cases hbus with h | ⟨offset, value, y, -, hy, hstep⟩
      · rw [advance_of_finished h, advance_of_finished h]
        exact ⟨rfl, hm⟩
      · obtain ⟨d, hc, hd⟩ := hstep m
        obtain ⟨d', hc', hd'⟩ := hstep m'
        rw [Program.advance, Program.advance, hd, hd']
        refine ih hy ?_
        show AgreeOn T (control d) (control d')
        rw [hc, hc']
        exact controlAfter_agree hm

theorem advance_outside (hbus : HasControlAliases bus control) (hx : AliasWrites S refused n x)
    (k : Nat) (m : Machine δ) :
    AgreeOn (fun i => ¬ S i) (control (Program.advance (Machine.platform bus) k x m).2.device)
      (control m.device) := by
  induction k generalizing n x m with
  | zero => exact AgreeOn.refl _ _
  | succ k ih =>
      rcases hx.step_cases hbus with h | ⟨offset, value, y, ht, hy, hstep⟩
      · rw [advance_of_finished h]
        exact AgreeOn.refl _ _
      · obtain ⟨d, hc, hd⟩ := hstep m
        rw [Program.advance, hd]
        refine (ih hy _).trans ?_
        show AgreeOn _ (control d) (control m.device)
        rw [hc]
        exact controlAfter_outside ht _

/-- With nothing refused, the program returns within its writes. -/
theorem exists_advance_done (hbus : HasControlAliases bus control)
    (hx : AliasWrites S refused n x) (hr : ¬ refused) (hnk : n ≤ k) (m : Machine δ) :
    ∃ v, (Program.advance (Machine.platform bus) k x m).1 = .done v := by
  induction k generalizing n x m with
  | zero =>
      obtain rfl := Nat.le_zero.mp hnk
      cases hx with
      | done v => exact ⟨v, rfl⟩
      | fault c h => exact absurd h hr
  | succ k ih =>
      rcases hx.step_cases hbus with hend | ⟨offset, value, y, -, hy, hstep⟩
      · rw [advance_of_finished hend]
        cases hx with
        | done v => exact ⟨v, rfl⟩
        | fault c h => exact absurd h hr
        | store ht hk => exact hend.elim
      · obtain ⟨d, -, hd⟩ := hstep m
        rw [Program.advance, hd]
        exact ih hy (by omega) _

end Steps

end AliasWrites

end BoardSupport
