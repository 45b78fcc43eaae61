import Mathlib.Algebra.Ring.Nat
import BoardSupport.Proofs.Device.Part
import BoardSupport.Proofs.Timer.Compare

/-!
# Scheduling from the counter

Which requests the timer driver makes, and what `scheduleIn` does on the modelled block:
the compare value it leaves is the counter that it read plus the cycles it was asked for,
modulo the width of the counter.
-/

namespace BoardSupport

/-- A sum that fits does not wrap. -/
theorem toNat_add_of_lt {a b : UInt64} (h : a.toNat + b.toNat < 2 ^ 64) :
    (a + b).toNat = a.toNat + b.toNat := by
  rw [UInt64.toNat_add]
  exact Nat.mod_eq_of_lt h

namespace TimerModel

/-- The block with another count. -/
def putTime (m : TimerModel) (value : UInt64) : TimerModel := { m with time := value }

theorem put_timeLow (m : TimerModel) (value : UInt32) :
    m.put value .timeLow = m.putTime (withLow m.time value) := rfl

theorem put_timeHigh (m : TimerModel) (value : UInt32) :
    m.put value .timeHigh = m.putTime (withHigh m.time value) := rfl

@[simp] theorem time_putTime (m : TimerModel) (value : UInt64) :
    (m.putTime value).time = value := by cases m; rfl

@[simp] theorem putTime_putTime (m : TimerModel) (v w : UInt64) :
    (m.putTime v).putTime w = m.putTime w := by cases m; rfl

/-- The three writes that load the counter. -/
theorem put_put_put (m : TimerModel) (value : UInt64) :
    ((m.put 0 .timeLow).put (highHalf value) .timeHigh).put (lowHalf value) .timeLow
      = m.putTime value := by
  rw [put_timeLow, put_timeHigh, put_timeLow]
  simp only [time_putTime, putTime_putTime, withHigh_highHalf, withLow_withLow, withLow_lowHalf]

end TimerModel

namespace Timer

open Program

variable {P : Request → Prop} {t : Timer}

/-! ## Requests -/

theorem asks_pass (h : ∀ r : Register, P (.load t.block r.offset)) : Asks P t.pass :=
  (Asks.request (h .timeHigh)).bind fun _ => (Asks.request (h .timeLow)).bind fun _ =>
    (Asks.request (h .timeHigh)).bind fun _ => .done _

theorem asks_time (h : ∀ r : Register, P (.load t.block r.offset)) : Asks P t.time :=
  (asks_pass h).poll

theorem asks_setTime (h : ∀ (r : Register) (value : UInt32), P (.store t.block r.offset value))
    (value : UInt64) : Asks P (t.setTime value) :=
  (Asks.request (h .timeLow _)).bind fun _ =>
    (Asks.request (h .timeHigh _)).bind fun _ => Asks.request (h .timeLow _)

theorem asks_setCompare (h : ∀ (r : Register) (value : UInt32), P (.store t.block r.offset value))
    (target : UInt64) : Asks P (t.setCompare target) :=
  (Asks.request (h .compareLow _)).bind fun _ =>
    (Asks.request (h .compareHigh _)).bind fun _ => Asks.request (h .compareLow _)

theorem asks_scheduleIn (hload : ∀ r : Register, P (.load t.block r.offset))
    (hstore : ∀ (r : Register) (value : UInt32), P (.store t.block r.offset value))
    (delta : UInt64) : Asks P (t.scheduleIn delta) :=
  (asks_time hload).bind fun _ => (asks_setCompare hstore _).bind fun _ => .done _

/-! ## Setting a counter that stands -/

/-- `setTime` leaves the counter at the value, and nothing else has changed. -/
theorem returns_setTime (t : Timer) (value : UInt64) (m : Machine TimerModel) :
    Returns (Machine.platform TimerModel.bus) (t.setTime value) m ()
      { m with device := m.device.putTime value } := by
  rw [← TimerModel.put_put_put]
  exact (returns_writeWord t .timeLow 0 m).bind
    ((returns_writeWord t .timeHigh (highHalf value) _).bind (returns_writeWord t .timeLow _ _))

/-! ## The schedule -/

/-- `scheduleIn` returns where `time` does, and then only the timer has changed. -/
theorem returns_scheduleIn_iff {m m' : Machine TimerModel} {delta v : UInt64} :
    Returns (Machine.platform TimerModel.bus) (t.scheduleIn delta) m v m' ↔
      ∃ now d, Returns (Machine.platform TimerModel.bus) t.time m now { m with device := d } ∧
        v = now + delta ∧ m' = { m with device := updated 0xFFFFFFFF d (now + delta) } := by
  constructor
  · intro h
    obtain ⟨now, m₁, htime, hset⟩ := returns_bind.mp h
    obtain ⟨d, rfl⟩ := (asks_time (t := t) fun _ => rfl).exists_device htime
    obtain ⟨hv, hm'⟩ := returns_setCompare_done hset
    exact ⟨now, d, htime, hv, hm'⟩
  · rintro ⟨now, d, htime, rfl, rfl⟩
    exact htime.bind ((returns_setCompare t (now + delta) { m with device := d }).bind
      (returns_done.mpr ⟨rfl, rfl⟩))

end Timer

end BoardSupport
