import BoardSupport.Device.Timer
import BoardSupport.Proofs.Program.Stops
import BoardSupport.Proofs.Timer.Reading

/-!
# The timer driver on the modelled timer

The state that a write leaves (`TimerModel.put`) and the two ways `time` goes
(`returns_time_stable`, `returns_time_carry`). The block counts the reads of its upper
half in a word, so a reading needs room in that word, and without it is a fault
(`exists_stops_pass`); writes never fail. Reading the counter changes nothing of the
compare half, also when it does not return (`throughout_time`).
-/

namespace BoardSupport

/-! ## Halves -/

@[simp] theorem highHalf_withLow (v : UInt64) (low : UInt32) :
    highHalf (withLow v low) = highHalf v :=
  highHalf_joinHalves _ _

@[simp] theorem lowHalf_withLow (v : UInt64) (low : UInt32) : lowHalf (withLow v low) = low :=
  lowHalf_joinHalves _ _

@[simp] theorem withLow_withLow (v : UInt64) (a b : UInt32) :
    withLow (withLow v a) b = withLow v b := by
  rw [withLow, highHalf_withLow, withLow]

@[simp] theorem withLow_lowHalf (v : UInt64) : withLow v (lowHalf v) = v :=
  joinHalves_halves v

/-- The upper half of `v` over a lower half that is there already. -/
theorem withHigh_highHalf (u v : UInt64) (low : UInt32) :
    withHigh (withLow u low) (highHalf v) = withLow v low := by
  rw [withHigh, lowHalf_withLow, withLow]

/-- Ones in the lower half do not make a value smaller. -/
theorem le_withLow_ones (v : UInt64) : v ≤ withLow v 0xFFFFFFFF := by
  have h : (0xFFFFFFFF : UInt32).toNat = 0x100000000 - 1 := rfl
  rw [UInt64.le_iff_toNat_le, withLow, toNat_joinHalves, toNat_highHalf, h]
  omega

namespace TimerModel

/-! ## Writes -/

/-- The block after a register was written. -/
def put (m : TimerModel) (value : UInt32) : Timer.Register → TimerModel
  | .timeLow => { m with time := withLow m.time value }
  | .timeHigh => { m with time := withHigh m.time value }
  | .compareLow => m.putCompare (withLow m.compare value)
  | .compareHigh => m.putCompare (withHigh m.compare value)

@[simp] theorem put_compareLow (m : TimerModel) (value : UInt32) :
    m.put value .compareLow = m.putCompare (withLow m.compare value) := rfl

@[simp] theorem put_compareHigh (m : TimerModel) (value : UInt32) :
    m.put value .compareHigh = m.putCompare (withHigh m.compare value) := rfl

-- Proved by cases: as definitional equations they would make the kernel compare whole
-- blocks, down to the arithmetic of their halves.
@[simp] theorem compare_putCompare (m : TimerModel) (value : UInt64) :
    (m.putCompare value).compare = value := by cases m; rfl

@[simp] theorem compareTrace_putCompare (m : TimerModel) (value : UInt64) :
    (m.putCompare value).compareTrace = m.compareTrace.push value := by cases m; rfl

@[simp] theorem time_putCompare (m : TimerModel) (value : UInt64) :
    (m.putCompare value).time = m.time := by cases m; rfl

@[simp] theorem ticksAfterLow_putCompare (m : TimerModel) (value : UInt64) :
    (m.putCompare value).ticksAfterLow = m.ticksAfterLow := by cases m; rfl

theorem store_offset (r : Timer.Register) (value : UInt32) (m : TimerModel) :
    m.store r.offset value = .ok (m.put value r) := by
  unfold store
  rw [Timer.Register.ofOffset?_offset]
  cases r <;> rfl

/-! ## Reads -/

theorem load_high {m : TimerModel} (h : m.highReads.toNat + 1 < 0x100000000) :
    m.load Timer.Register.timeHigh.offset
      = .ok (highHalf m.time, { m with highReads := m.highReads + 1 }) := by
  show (if m.highReads = 0xFFFFFFFF then Except.error Fault.addOverflow
    else .ok (highHalf m.time, { m with highReads := m.highReads + 1 })) = _
  rw [if_neg (count_ne_last_iff.mpr h)]

/-- From the last count on a reading is a fault. -/
theorem load_high_error {m : TimerModel} (h : ¬ m.highReads.toNat + 1 < 0x100000000) :
    m.load Timer.Register.timeHigh.offset = .error .addOverflow := by
  show (if m.highReads = 0xFFFFFFFF then Except.error Fault.addOverflow
    else .ok (highHalf m.time, { m with highReads := m.highReads + 1 })) = _
  rw [if_pos (Decidable.not_not.mp (mt count_ne_last_iff.mp h))]

/-- The block after a pass of `time`: the ticks that were pending have passed. -/
def ticked (m : TimerModel) : TimerModel :=
  { m with
    time := m.time + m.ticksAfterLow
    ticksAfterLow := 0
    highReads := m.highReads + 2 }

/-- The upper half can be read `n` times more. -/
def CanRead (m : TimerModel) (n : Nat) : Prop := m.highReads.toNat + n < 0x100000000

instance (m : TimerModel) (n : Nat) : Decidable (m.CanRead n) :=
  inferInstanceAs (Decidable (_ < _))

theorem canRead_ticked {m : TimerModel} (h : m.CanRead 2) {n : Nat} :
    m.ticked.CanRead n ↔ m.CanRead (n + 2) := by
  unfold CanRead at h ⊢
  show (m.highReads + 2).toNat + n < 0x100000000 ↔ _
  rw [UInt32.toNat_add]
  have h₂ : (2 : UInt32).toNat = 2 := rfl
  omega

end TimerModel

namespace Timer

open Program

variable {t : Timer} {m : Machine TimerModel}

theorem returns_writeWord (t : Timer) (r : Register) (value : UInt32) (m : Machine TimerModel) :
    Returns (Machine.platform TimerModel.bus) (t.writeWord r value) m ()
      { m with device := m.device.put value r } :=
  Machine.returns_write (TimerModel.store_offset r value m.device)

theorem step_writeWord {α : Type} (t : Timer) (r : Register) (value : UInt32)
    (k : Unit → Program α) (m : Machine TimerModel) :
    step (Machine.platform TimerModel.bus) ((t.writeWord r value).bind k) m
      = (k (), { m with device := m.device.put value r }) := by
  show step _ (.ask (.store t.block r.offset value) k) m = _
  rw [step, Machine.platform_store (TimerModel.store_offset r value m.device)]

theorem throughout_writeWord {P : Machine TimerModel → Prop} {r : Register} {value : UInt32}
    (hm : P m) (h : P { m with device := m.device.put value r }) :
    Throughout (Machine.platform TimerModel.bus) (t.writeWord r value) m P := by
  refine Machine.throughout_write hm fun d hd => ?_
  have hput := (TimerModel.store_offset r value m.device).symm.trans hd
  cases hput
  exact h

/-! ## Reading the counter -/

/-- A pass gives the counter as it was at the start, unless the ticks that pass in
it carry into the upper half. -/
theorem returns_pass_model (h : m.device.CanRead 2) :
    Returns (Machine.platform TimerModel.bus) t.pass m
      (if highHalf (m.device.time + m.device.ticksAfterLow) = highHalf m.device.time
        then some m.device.time else none)
      { m with device := m.device.ticked } := by
  have h₁ : m.device.highReads.toNat + 1 < 0x100000000 := Nat.lt_of_succ_lt h
  have hnext : (m.device.highReads + 1).toNat + 1 < 0x100000000 := by
    rw [toNat_count_succ h₁]
    exact h
  have hhigh : Returns (Machine.platform TimerModel.bus) (t.readWord .timeHigh) m _ _ :=
    Machine.returns_read (TimerModel.load_high h₁)
  refine hhigh.bind (Returns.bind (Machine.returns_read rfl) (Returns.bind
    (Machine.returns_read (TimerModel.load_high hnext)) ?_))
  rw [joinHalves_halves]
  refine returns_done.mpr ⟨rfl, ?_⟩
  show ({ m with device := { m.device with
      time := m.device.time + m.device.ticksAfterLow, ticksAfterLow := 0,
      highReads := m.device.highReads + 1 + 1 } } : Machine TimerModel) = _
  rw [UInt32.add_assoc]
  rfl

theorem stops_readHigh (h : ¬ m.device.highReads.toNat + 1 < 0x100000000) :
    Stops (Machine.platform TimerModel.bus) (t.readWord .timeHigh) m (.fault .addOverflow) m :=
  Stops.ask (Machine.platform_load_error (TimerModel.load_high_error h))

/-- Where the upper half cannot be read twice more, a pass is a fault. -/
theorem exists_stops_pass (h : ¬ m.device.CanRead 2) :
    ∃ d, Stops (Machine.platform TimerModel.bus) t.pass m (.fault .addOverflow)
      { m with device := d } := by
  by_cases h₁ : m.device.highReads.toNat + 1 < 0x100000000
  · have hnext : ¬ (m.device.highReads + 1).toNat + 1 < 0x100000000 := by
      rw [toNat_count_succ h₁]
      exact h
    have hhigh : Returns (Machine.platform TimerModel.bus) (t.readWord .timeHigh) m _ _ :=
      Machine.returns_read (TimerModel.load_high h₁)
    exact ⟨_, Stops.after hhigh (Stops.after (Machine.returns_read rfl) (stops_readHigh hnext).bind)⟩
  · exact ⟨m.device, (stops_readHigh h₁).bind⟩

theorem returns_time_stable (h : m.device.CanRead 2)
    (hs : highHalf (m.device.time + m.device.ticksAfterLow) = highHalf m.device.time) :
    Returns (Machine.platform TimerModel.bus) t.time m m.device.time
      { m with device := m.device.ticked } := by
  have hpass := returns_pass_model (t := t) h
  rw [if_pos hs] at hpass
  exact hpass.poll_leave

/-- With a carry the second pass finds the counter after the ticks. -/
theorem returns_time_carry (h : m.device.CanRead 4)
    (hc : highHalf (m.device.time + m.device.ticksAfterLow) ≠ highHalf m.device.time) :
    Returns (Machine.platform TimerModel.bus) t.time m
      (m.device.time + m.device.ticksAfterLow)
      { m with device := m.device.ticked.ticked } := by
  have hroom : m.device.CanRead 2 := by unfold TimerModel.CanRead at h ⊢; omega
  have hpass := returns_pass_model (t := t) hroom
  rw [if_neg hc] at hpass
  refine hpass.poll_again (returns_time_stable (m := { m with device := m.device.ticked })
    ((TimerModel.canRead_ticked hroom).mpr h) ?_)
  show highHalf (m.device.time + m.device.ticksAfterLow + 0) = _
  rw [UInt64.add_zero]
  rfl

/-- With room for four reads of the upper half, `time` returns. -/
theorem exists_returns_time (h : m.device.CanRead 4) :
    ∃ now m', Returns (Machine.platform TimerModel.bus) t.time m now m' := by
  by_cases hs : highHalf (m.device.time + m.device.ticksAfterLow) = highHalf m.device.time
  · exact ⟨_, _, returns_time_stable (by unfold TimerModel.CanRead at h ⊢; omega) hs⟩
  · exact ⟨_, _, returns_time_carry h hs⟩

/-! ## What a reading leaves alone -/

/-- The compare half of the block is that of `m`. -/
def SameCompare (m s : Machine TimerModel) : Prop :=
  s.device.compare = m.device.compare ∧ s.device.compareTrace = m.device.compareTrace

theorem throughout_readTime {r : Register} (hr : r = .timeHigh ∨ r = .timeLow)
    {s : Machine TimerModel} (hs : SameCompare m s) :
    Throughout (Machine.platform TimerModel.bus) (t.readWord r) s (SameCompare m) := by
  refine Machine.throughout_read hs fun value d hd => ?_
  change s.device.load r.offset = _ at hd
  unfold TimerModel.load at hd
  rw [Register.ofOffset?_offset] at hd
  rcases hr with rfl | rfl
  · dsimp only at hd
    split at hd
    · cases hd
    · cases hd
      exact hs
  · cases hd
    exact hs

theorem throughout_pass {s : Machine TimerModel} (hs : SameCompare m s) :
    Throughout (Machine.platform TimerModel.bus) t.pass s (SameCompare m) := by
  have h₁ := throughout_readTime (t := t) (Or.inl rfl) hs
  refine h₁.bind fun _ s₁ hr₁ => ?_
  have h₂ := throughout_readTime (t := t) (Or.inr rfl) (h₁.finish hr₁)
  refine h₂.bind fun _ s₂ hr₂ => ?_
  have h₃ := throughout_readTime (t := t) (Or.inl rfl) (h₂.finish hr₂)
  exact h₃.bind fun _ s₃ hr₃ => Throughout.done (h₃.finish hr₃)

/-- A reading of the counter leaves the compare half as it is, whether it returns or
not. -/
theorem throughout_time (t : Timer) (m : Machine TimerModel) :
    Throughout (Machine.platform TimerModel.bus) t.time m (SameCompare m) :=
  Throughout.poll (fun _ hs => throughout_pass hs)
    (fun _ _ hs h => (throughout_pass hs).finish h) ⟨rfl, rfl⟩

end Timer

end BoardSupport
