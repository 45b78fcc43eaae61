import BoardSupport.Proofs.Program.Stops
import BoardSupport.Proofs.Timer.Scheduling

/-!
# The uptime of a counter that stands

`uptimeMs` multiplies and divides exactly, and then cuts the quotient to the width of the
counter. On a clock of a kilohertz or more the quotient is no larger than the counter, and
nothing is cut; on every slower clock some counts lose their upper bits, and a counter that
grows past the first of them is shown with a smaller uptime than before
(`uptime_exact_iff`).
-/

namespace BoardSupport.Timer

open Program

variable {t : Timer} {clockHz : UInt32} {m : Machine TimerModel}

/-! ## The quotient and its word -/

/-- The whole milliseconds that a count takes on a clock. -/
def milliseconds (clockHz : UInt32) (now : UInt64) : Nat := 1000 * now.toNat / clockHz.toNat

/-- What is left of them in a word. -/
def millisecondsWord (clockHz : UInt32) (now : UInt64) : UInt64 :=
  UInt64.ofNat (milliseconds clockHz now)

theorem toNat_millisecondsWord (clockHz : UInt32) (now : UInt64) :
    (millisecondsWord clockHz now).toNat = milliseconds clockHz now % 2 ^ 64 :=
  UInt64.toNat_ofNat'

theorem toNat_pos (h : clockHz ≠ 0) : 0 < clockHz.toNat :=
  Nat.pos_of_ne_zero fun hzero => h (UInt32.toNat_inj.mp hzero)

theorem milliseconds_mono (clockHz : UInt32) {now later : UInt64} (h : now ≤ later) :
    milliseconds clockHz now ≤ milliseconds clockHz later :=
  Nat.div_le_div_right (Nat.mul_le_mul_left _ (UInt64.le_iff_toNat_le.mp h))

/-- The word is exact where the quotient fits. -/
theorem millisecondsWord_exact_iff (h : clockHz ≠ 0) (now : UInt64) :
    (millisecondsWord clockHz now).toNat = milliseconds clockHz now ↔
      1000 * now.toNat < 2 ^ 64 * clockHz.toNat := by
  rw [toNat_millisecondsWord, Nat.mod_eq_iff_lt (by decide), milliseconds,
    Nat.div_lt_iff_lt_mul (toNat_pos h)]

/-- From a kilohertz on every quotient fits; below, that of the last count does not. -/
theorem forall_exact_iff (h : clockHz ≠ 0) :
    (∀ now, (millisecondsWord clockHz now).toNat = milliseconds clockHz now) ↔
      1000 ≤ clockHz.toNat := by
  simp only [millisecondsWord_exact_iff h]
  constructor
  · intro hfits
    have hlast : 1000 * (2 ^ 64 - 1) < 2 ^ 64 * clockHz.toNat := hfits 0xFFFFFFFFFFFFFFFF
    omega
  · intro hfast now
    have := now.toNat_lt
    calc 1000 * now.toNat < 1000 * 2 ^ 64 := by omega
      _ ≤ 2 ^ 64 * clockHz.toNat := by omega

/-- On a slower clock a count whose quotient has just passed the width of a word is shown with
fewer milliseconds than some count before it. -/
theorem exists_decrease (h : clockHz ≠ 0) (hslow : clockHz.toNat < 1000) :
    ∃ now later, now ≤ later ∧
      millisecondsWord clockHz later < millisecondsWord clockHz now := by
  have hpos := toNat_pos h
  -- The first count past the width of a word, and one of two seconds.
  let past := (2 ^ 64 * clockHz.toNat + 999) / 1000
  have hlater : (UInt64.ofNat past).toNat = past := Nat.mod_eq_of_lt (by omega)
  have hnow : (UInt64.ofNat (2 * clockHz.toNat)).toNat = 2 * clockHz.toNat :=
    Nat.mod_eq_of_lt (by omega)
  refine ⟨UInt64.ofNat (2 * clockHz.toNat), UInt64.ofNat past, ?_, ?_⟩
  · rw [UInt64.le_iff_toNat_le, hlater, hnow]
    omega
  · have hshown : milliseconds clockHz (UInt64.ofNat (2 * clockHz.toNat)) = 2000 := by
      rw [milliseconds, hnow, ← Nat.mul_assoc, Nat.mul_div_cancel _ hpos]
    have hle : 2 ^ 64 ≤ milliseconds clockHz (UInt64.ofNat past) := by
      rw [milliseconds, hlater, Nat.le_div_iff_mul_le hpos]
      omega
    have hlt : milliseconds clockHz (UInt64.ofNat past) < 2 ^ 64 + 1000 := by
      rw [milliseconds, hlater, Nat.div_lt_iff_lt_mul hpos, Nat.add_mul]
      omega
    rw [UInt64.lt_iff_toNat_lt, toNat_millisecondsWord, toNat_millisecondsWord, hshown]
    omega

theorem forall_mono_iff (h : clockHz ≠ 0) :
    (∀ now later, now ≤ later → millisecondsWord clockHz now ≤ millisecondsWord clockHz later) ↔
      1000 ≤ clockHz.toNat := by
  constructor
  · intro hmono
    by_contra hslow
    obtain ⟨now, later, hle, hlt⟩ := exists_decrease h (Nat.lt_of_not_le hslow)
    exact UInt64.not_lt.mpr (hmono now later hle) hlt
  · intro hfast now later hle
    have hexact := (forall_exact_iff h).mpr hfast
    rw [UInt64.le_iff_toNat_le, hexact, hexact]
    exact milliseconds_mono clockHz hle

/-! ## The driver -/

/-- A counter that stands, with room to be read once. -/
structure Stands (now : UInt64) (d : TimerModel) : Prop where
  time : d.time = now
  still : d.ticksAfterLow = 0
  room : d.CanRead 2

theorem stands_of_time (now : UInt64) : Stands now { time := now } :=
  ⟨rfl, rfl, (by decide : (0 : UInt32).toNat + 2 < 0x100000000)⟩

theorem Stands.returns_time {now : UInt64} (h : Stands now m.device) :
    Returns (Machine.platform TimerModel.bus) t.time m now
      { m with device := m.device.ticked } := by
  have hsame : highHalf (m.device.time + m.device.ticksAfterLow) = highHalf m.device.time := by
    rw [h.still, UInt64.add_zero]
  rw [← h.time]
  exact returns_time_stable h.room hsame

/-- With the counter at `now` the driver gives `v`, and only the timer has been read. -/
def UptimeIs (t : Timer) (clockHz : UInt32) (now v : UInt64) : Prop :=
  ∀ m : Machine TimerModel, Stands now m.device →
    Returns (Machine.platform TimerModel.bus) (t.uptimeMs clockHz) m v
      { m with device := m.device.ticked }

theorem uptimeIs_iff (h : clockHz ≠ 0) {now v : UInt64} :
    t.UptimeIs clockHz now v ↔ v = millisecondsWord clockHz now := by
  have hshown : t.UptimeIs clockHz now (millisecondsWord clockHz now) := by
    intro m hm
    refine hm.returns_time.bind ?_
    rw [if_neg h, millisecondsWord, milliseconds, Nat.mul_comm]
    exact returns_done.mpr ⟨rfl, rfl⟩
  constructor
  · intro hv
    let standing : Machine TimerModel := { device := { time := now } }
    have hstands : Stands now standing.device := stands_of_time now
    exact ((hv standing hstands).unique (hshown standing hstands)).1
  · rintro rfl
    exact hshown

/-- **From a kilohertz on the uptime is exact.** A clock of zero hertz is a fault. On any
other the driver returns the whole milliseconds of the count as a word holds them, which is
all of them where the quotient fits. It does so at every count, and the uptime never goes
back as the counter grows, exactly if the clock has a kilohertz or more. -/
theorem uptime_exact_iff (t : Timer) (clockHz : UInt32) :
    (clockHz = 0 → ∀ now (m : Machine TimerModel), Stands now m.device →
      Stops (Machine.platform TimerModel.bus) (t.uptimeMs clockHz) m (.fault .divideByZero)
        { m with device := m.device.ticked }) ∧
    (clockHz ≠ 0 →
      (∀ now, ∃ v, t.UptimeIs clockHz now v ∧
        v.toNat = 1000 * now.toNat / clockHz.toNat % 2 ^ 64 ∧
        (v.toNat = 1000 * now.toNat / clockHz.toNat ↔
          1000 * now.toNat < 2 ^ 64 * clockHz.toNat)) ∧
      ((∀ now v, t.UptimeIs clockHz now v → v.toNat = 1000 * now.toNat / clockHz.toNat) ↔
        1000 ≤ clockHz.toNat) ∧
      ((∀ now later v w, now ≤ later → t.UptimeIs clockHz now v → t.UptimeIs clockHz later w →
          v ≤ w) ↔
        1000 ≤ clockHz.toNat)) := by
  refine ⟨?_, fun h => ⟨fun now => ?_, ?_, ?_⟩⟩
  · rintro rfl now m hm
    exact Stops.after hm.returns_time ⟨0, fun _ _ => rfl⟩
  · exact ⟨_, (uptimeIs_iff h).mpr rfl, toNat_millisecondsWord clockHz now,
      millisecondsWord_exact_iff h now⟩
  · simp only [uptimeIs_iff h, forall_eq]
    exact forall_exact_iff h
  · simp only [uptimeIs_iff h]
    refine Iff.trans ⟨?_, ?_⟩ (forall_mono_iff h)
    · exact fun hmono now later hle => hmono now later _ _ hle rfl rfl
    · rintro hmono now later _ _ hle rfl rfl
      exact hmono now later hle

/-- A second and a half at 32 MHz. -/
theorem uptime_exact_iff_fast :
    Returns (Machine.platform TimerModel.bus) (uptimeMs ⟨MemoryMap.target.timer⟩ 32000000)
      { device := { time := 48000000 } } 1500 { device := { time := 48000000, highReads := 2 } } := by
  obtain ⟨-, h⟩ := uptime_exact_iff ⟨MemoryMap.target.timer⟩ 32000000
  obtain ⟨hshown, -, -⟩ := h (by decide)
  obtain ⟨v, hv, hword, -⟩ := hshown 48000000
  obtain rfl : v = 1500 := UInt64.toNat_inj.mp hword
  exact hv { device := { time := 48000000 } } (stands_of_time _)

/-- At one hertz a count of 18446744073709551 is shown as it should be, and the next one as
384 milliseconds. -/
theorem uptime_wraps :
    ∃ before after,
      Returns (Machine.platform TimerModel.bus) (uptimeMs ⟨MemoryMap.target.timer⟩ 1)
        { device := { time := 18446744073709551 } } 18446744073709551000 before ∧
      Returns (Machine.platform TimerModel.bus) (uptimeMs ⟨MemoryMap.target.timer⟩ 1)
        { device := { time := 18446744073709552 } } 384 after ∧
      (384 : UInt64).toNat ≠ 1000 * (18446744073709552 : UInt64).toNat / (1 : UInt32).toNat ∧
      (384 : UInt64) < 18446744073709551000 := by
  have hshown : ∀ now, Returns (Machine.platform TimerModel.bus)
      (uptimeMs ⟨MemoryMap.target.timer⟩ 1) { device := { time := now } }
      (millisecondsWord 1 now) _ := fun now =>
    (uptimeIs_iff (by decide)).mpr rfl _ (stands_of_time now)
  exact ⟨_, _, hshown 18446744073709551, hshown 18446744073709552, by decide, by decide⟩

end BoardSupport.Timer
