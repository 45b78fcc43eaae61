import BoardSupport.Proofs.Timer.Scheduling

/-!
# Bursts of ticks within a reading

The modelled block lets a burst of ticks pass right after the next reading of its lower
half. Whatever the burst is, also one that takes the counter once around, `time` gives a
value that the counter had (`TimerModel.instant`): the one before the burst when both have
the same upper half, and otherwise the one after it, for which it goes round again. What
is set without a burst is read back, and `scheduleIn` counts from the value that was read
(`time_gives_instant`). Both return just where the block can count the readings of its
upper half that this takes (`returns_time_instant`, `exists_stops_time`).
-/

namespace BoardSupport

namespace TimerModel

variable {d : TimerModel}

/-- The counter after the burst that is pending. -/
def later (d : TimerModel) : UInt64 := d.time + d.ticksAfterLow

/-- The burst leaves the upper half as it is. -/
def UpperStays (d : TimerModel) : Prop := highHalf d.later = highHalf d.time

instance (d : TimerModel) : Decidable d.UpperStays := inferInstanceAs (Decidable (_ = _))

/-- The moment that a reading of the counter gives. -/
def instant (d : TimerModel) : UInt64 := if d.UpperStays then d.time else d.later

/-- The readings of the upper half that it takes. -/
def upperReads (d : TimerModel) : Nat := if d.UpperStays then 2 else 4

/-- The block after a reading of the counter. -/
def afterReading (d : TimerModel) : TimerModel :=
  { d with
    time := d.later
    ticksAfterLow := 0
    highReads := d.highReads + UInt32.ofNat d.upperReads }

theorem afterReading_of_stays (h : d.UpperStays) : d.afterReading = d.ticked := by
  have hreads : d.upperReads = 2 := if_pos h
  rw [afterReading, hreads]
  rfl

theorem afterReading_of_not_stays (h : ¬ d.UpperStays) : d.afterReading = d.ticked.ticked := by
  have hreads : d.upperReads = 4 := if_neg h
  have htime : d.ticked.ticked.time = d.later := UInt64.add_zero _
  have hcount : d.ticked.ticked.highReads = d.highReads + UInt32.ofNat 4 :=
    UInt32.add_assoc d.highReads 2 2
  rw [afterReading, hreads, ← htime, ← hcount]
  rfl

theorem CanRead.upperReads (h : d.CanRead 4) : d.CanRead d.upperReads := by
  unfold CanRead at h ⊢
  unfold TimerModel.upperReads
  split
  · omega
  · exact h

/-- With room for the readings, their count does not wrap. -/
theorem toNat_highReads_afterReading (h : d.CanRead d.upperReads) :
    d.afterReading.highReads.toNat = d.highReads.toNat + d.upperReads := by
  unfold CanRead at h
  show (d.highReads + UInt32.ofNat d.upperReads).toNat = _
  rw [UInt32.toNat_add, UInt32.toNat_ofNat']
  omega

/-- Without a burst the counter stands. -/
theorem instant_of_still (h : d.ticksAfterLow = 0) : d.instant = d.time := by
  have hlater : d.later = d.time := by rw [later, h, UInt64.add_zero]
  rw [instant, hlater, ite_self]

end TimerModel

namespace Timer

open Program

variable {m : Machine TimerModel}

theorem returns_time_instant (t : Timer) (h : m.device.CanRead m.device.upperReads) :
    Returns (Machine.platform TimerModel.bus) t.time m m.device.instant
      { m with device := m.device.afterReading } := by
  by_cases hstays : m.device.UpperStays
  · rw [TimerModel.upperReads, if_pos hstays] at h
    rw [TimerModel.instant, if_pos hstays, TimerModel.afterReading_of_stays hstays]
    exact returns_time_stable h hstays
  · rw [TimerModel.upperReads, if_neg hstays] at h
    rw [TimerModel.instant, if_neg hstays, TimerModel.afterReading_of_not_stays hstays]
    exact returns_time_carry h hstays

/-- Without room for its readings of the upper half, `time` is a fault: in its first pass, or
in the second. -/
theorem exists_stops_time (t : Timer) (h : ¬ m.device.CanRead m.device.upperReads) :
    ∃ d, Stops (Machine.platform TimerModel.bus) t.time m (.fault .addOverflow)
      { m with device := d } := by
  by_cases hroom : m.device.CanRead 2
  · by_cases hstays : m.device.UpperStays
    · rw [TimerModel.upperReads, if_pos hstays] at h
      exact absurd hroom h
    · rw [TimerModel.upperReads, if_neg hstays] at h
      have hcarry : highHalf (m.device.time + m.device.ticksAfterLow) ≠ highHalf m.device.time :=
        hstays
      have hpass := returns_pass_model (t := t) hroom
      rw [if_neg hcarry] at hpass
      obtain ⟨d, hstop⟩ := exists_stops_pass (t := t)
        (m := { m with device := m.device.ticked }) (mt (TimerModel.canRead_ticked hroom).mp h)
      exact ⟨d, Stops.poll_again hpass hstop⟩
  · obtain ⟨d, hstop⟩ := exists_stops_pass (t := t) hroom
    exact ⟨d, hstop.poll⟩

/-- `scheduleIn` counts from the moment that it reads. -/
theorem returns_scheduleIn_instant (t : Timer) (h : m.device.CanRead m.device.upperReads)
    (delta : UInt64) :
    Returns (Machine.platform TimerModel.bus) (t.scheduleIn delta) m (m.device.instant + delta)
      { m with
        device := updated 0xFFFFFFFF m.device.afterReading (m.device.instant + delta) } :=
  returns_scheduleIn_iff.mpr ⟨_, _, returns_time_instant t h, rfl, rfl⟩

/-- **A reading within a burst gives a moment of the counter.** With room for its readings
of the upper half, `time` returns the counter before the burst if that leaves the upper
half as it is, with two such readings, and the counter after it otherwise, with four; the
burst has passed then, and nothing else has changed. `scheduleIn` leaves the compare value
that many cycles after the moment it read. A counter that was set is read at the moment
given so, which is the value itself when no burst is pending. -/
theorem time_gives_instant (t : Timer) (m : Machine TimerModel) (h : m.device.CanRead 4) :
    (Returns (Machine.platform TimerModel.bus) t.time m m.device.instant
        { m with device := m.device.afterReading } ∧
      m.device.afterReading.highReads.toNat
        = m.device.highReads.toNat + m.device.upperReads) ∧
    (∀ delta, ∃ trace, Returns (Machine.platform TimerModel.bus) (t.scheduleIn delta) m
      (m.device.instant + delta)
      { m with device := { m.device.afterReading with
        compare := m.device.instant + delta
        compareTrace := trace } }) ∧
    ∀ v, Returns (Machine.platform TimerModel.bus) (do t.setTime v; t.time) m
        (m.device.putTime v).instant
        { m with device := (m.device.putTime v).afterReading } ∧
      (m.device.ticksAfterLow = 0 → (m.device.putTime v).instant = v) := by
  have htime := returns_time_instant t h.upperReads
  have hreads := TimerModel.toNat_highReads_afterReading h.upperReads
  refine ⟨⟨htime, hreads⟩, fun delta => ?_, fun v => ?_⟩
  · have hset := returns_scheduleIn_instant t h.upperReads delta
    rw [updated_eq_with] at hset
    exact ⟨_, hset⟩
  · let loaded : Machine TimerModel := { m with device := m.device.putTime v }
    have hroom : loaded.device.CanRead 4 := h
    refine ⟨(returns_setTime t v m).bind (returns_time_instant t hroom.upperReads), fun hstill => ?_⟩
    exact TimerModel.instant_of_still (d := m.device.putTime v) hstill

/-- A burst of one tick that carries, and one that takes the counter around to the value
before: read after the one, before the other. And a value that is set and read back. -/
theorem time_gives_instant_around :
    let t : Timer := ⟨MemoryMap.full.timer⟩
    let carry : Machine TimerModel := { device := { time := 0x1FFFFFFFF, ticksAfterLow := 1 } }
    let around : Machine TimerModel :=
      { device := { time := 0x1FFFFFFFF, ticksAfterLow := 0xFFFFFFFFFFFFFFFF } }
    let still : Machine TimerModel := { device := { time := 0x1FFFFFFFF } }
    (carry.device.CanRead 4 ∧ Returns (Machine.platform TimerModel.bus) t.time carry 0x200000000
      { device := { time := 0x200000000, highReads := 4 } }) ∧
    (around.device.CanRead 4 ∧ Returns (Machine.platform TimerModel.bus) t.time around 0x1FFFFFFFF
      { device := { time := 0x1FFFFFFFE, highReads := 2 } }) ∧
    still.device.CanRead 4 ∧ still.device.ticksAfterLow = 0 ∧
      Returns (Machine.platform TimerModel.bus) (do t.setTime 0x300000005; t.time) still
        0x300000005 { device := { time := 0x300000005, highReads := 2 } } := by
  intro t carry around still
  have hcarry : carry.device.CanRead 4 := by decide
  have haround : around.device.CanRead 4 := by decide
  have hstill : still.device.CanRead 4 := by decide
  have hafter : carry.device.instant = 0x200000000 ∧
      carry.device.afterReading = { time := 0x200000000, highReads := 4 } := by decide
  have hbefore : around.device.instant = 0x1FFFFFFFF ∧
      around.device.afterReading = { time := 0x1FFFFFFFE, highReads := 2 } := by decide
  have hset : (still.device.putTime 0x300000005).afterReading
      = { time := 0x300000005, highReads := 2 } := by decide
  have hlate := (time_gives_instant t carry hcarry).1.1
  have hearly := (time_gives_instant t around haround).1.1
  obtain ⟨hback, hvalue⟩ := (time_gives_instant t still hstill).2.2 0x300000005
  rw [hafter.1, hafter.2] at hlate
  rw [hbefore.1, hbefore.2] at hearly
  rw [hvalue rfl, hset] at hback
  exact ⟨⟨hcarry, hlate⟩, ⟨haround, hearly⟩, hstill, rfl, hback⟩

end Timer

end BoardSupport
