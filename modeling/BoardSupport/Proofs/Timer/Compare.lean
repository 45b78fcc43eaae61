import BoardSupport.Proofs.Timer.Model

/-!
# The compare value never falls below both targets

The comparator sees every write of one half at once. `setCompare` parks the lower
half at all ones while the upper half changes, so of the two mixed values neither
is below the value it shares its upper half with (`le_withLow_ones`).

`CompareHistory` is any sequence of updates from any compare value, with the
counter moving freely between them. Each update in it is safe (`UpdatesSafely`,
`updatesSafely_of_returns`): all states it passes through show at least the smaller of
the old and the new target, it writes the compare half three times, and it leaves the
new target.
-/

namespace BoardSupport.Timer

open Program

variable {t : Timer} {m m' : Machine TimerModel}

/-! ## Three writes

`setCompare` parks the lower half at all ones. What the three writes leave holds for
any value to park at; that it is all ones counts only where values are compared. -/

/-- What the comparator sees after each of three writes, the first of which parks the
lower half at `park`. -/
def exposures (park : UInt32) (old target : UInt64) : Array UInt64 :=
  #[withLow old park, withLow target park, target]

/-- The block after the first write. -/
def parked (park : UInt32) (d : TimerModel) : TimerModel := d.put park .compareLow

def mixed (park : UInt32) (d : TimerModel) (target : UInt64) : TimerModel :=
  (parked park d).put (highHalf target) .compareHigh

def updated (park : UInt32) (d : TimerModel) (target : UInt64) : TimerModel :=
  (mixed park d target).put (lowHalf target) .compareLow

variable {park : UInt32} {target : UInt64}

theorem parked_eq (d : TimerModel) :
    parked park d = d.putCompare (withLow d.compare park) := rfl

theorem mixed_eq (d : TimerModel) :
    mixed park d target = (parked park d).putCompare (withLow target park) := by
  rw [mixed, TimerModel.put_compareHigh, parked_eq, TimerModel.compare_putCompare,
    withHigh_highHalf]

theorem updated_eq (d : TimerModel) :
    updated park d target = (mixed park d target).putCompare target := by
  rw [updated, TimerModel.put_compareLow, mixed_eq, TimerModel.compare_putCompare,
    withLow_withLow, withLow_lowHalf]

/-- An update leaves the target in the compare half, and nothing else but its trace. -/
theorem updated_eq_with (d : TimerModel) : updated park d target = { d with
    compare := target, compareTrace := d.compareTrace ++ exposures park d.compare target } := by
  have hputs : ∀ a b c : UInt64, ((d.putCompare a).putCompare b).putCompare c = { d with
      compare := c, compareTrace := d.compareTrace ++ #[a, b, c] } := by
    intro a b c
    obtain ⟨time, compare, ticks, reads, trace⟩ := d
    have htrace : ((trace.push a).push b).push c = trace ++ #[a, b, c] := by
      apply Array.ext'
      simp
    simp only [TimerModel.putCompare, htrace]
  rw [updated_eq, mixed_eq, parked_eq, hputs, exposures]

theorem compareTrace_updated (d : TimerModel) :
    (updated park d target).compareTrace = d.compareTrace ++ exposures park d.compare target := by
  rw [updated_eq_with]

/-- Somewhere in an update of `m` to `target`: only the compare half has changed, and
it shows the old value or an exposure. -/
def Updating (park : UInt32) (m : Machine TimerModel) (target : UInt64)
    (s : Machine TimerModel) : Prop :=
  (s.device.compare = m.device.compare ∨
    s.device.compare ∈ exposures park m.device.compare target) ∧
  s.device.time = m.device.time ∧ s.device.ticksAfterLow = m.device.ticksAfterLow

theorem updating_start : Updating park m target m := ⟨Or.inl rfl, rfl, rfl⟩

theorem updating_parked : Updating park m target { m with device := parked park m.device } := by
  simp [Updating, exposures, parked_eq]

theorem updating_mixed :
    Updating park m target { m with device := mixed park m.device target } := by
  simp [Updating, exposures, mixed_eq, parked_eq]

theorem updating_updated :
    Updating park m target { m with device := updated park m.device target } := by
  simp [Updating, exposures, updated_eq, mixed_eq, parked_eq]

/-! ## One update -/

/-- `setCompare` writes the compare half three times and leaves the target there. -/
theorem returns_setCompare (t : Timer) (target : UInt64) (m : Machine TimerModel) :
    Returns (Machine.platform TimerModel.bus) (t.setCompare target) m ()
      { m with device := updated 0xFFFFFFFF m.device target } :=
  (returns_writeWord t .compareLow _ m).bind
    ((returns_writeWord t .compareHigh _ _).bind (returns_writeWord t .compareLow _ _))

/-- `setCompare` takes the compare half from the old value through the exposures, and
changes nothing else. -/
theorem throughout_setCompare (t : Timer) (target : UInt64) (m : Machine TimerModel) :
    Throughout (Machine.platform TimerModel.bus) (t.setCompare target) m
      (Updating 0xFFFFFFFF m target) := by
  refine (throughout_writeWord updating_start updating_parked).bind fun _ s₁ hr₁ => ?_
  obtain ⟨-, rfl⟩ := hr₁.unique (returns_writeWord t .compareLow _ m)
  refine (throughout_writeWord updating_parked updating_mixed).bind fun _ s₂ hr₂ => ?_
  obtain ⟨-, rfl⟩ := hr₂.unique (returns_writeWord t .compareHigh _ _)
  exact throughout_writeWord updating_mixed updating_updated

/-- Neither mixed value is below the value that it shares its upper half with. -/
theorem Updating.min_le {s : Machine TimerModel} (h : Updating 0xFFFFFFFF m target s) :
    min m.device.compare target ≤ s.device.compare := by
  rcases h.1 with heq | hmem
  · rw [heq]
    exact Std.min_le_left
  · simp only [exposures, List.mem_toArray, List.mem_cons, List.not_mem_nil, or_false] at hmem
    rcases hmem with heq | heq | heq
    · rw [heq]
      exact UInt64.le_trans Std.min_le_left (le_withLow_ones _)
    · rw [heq]
      exact UInt64.le_trans Std.min_le_right (le_withLow_ones _)
    · rw [heq]
      exact Std.min_le_right

/-- `compare` gives the compare value, and changes nothing. -/
theorem returns_compare (t : Timer) (m : Machine TimerModel) :
    Returns (Machine.platform TimerModel.bus) t.compare m m.device.compare m := by
  refine (Machine.returns_read rfl).bind ((Machine.returns_read rfl).bind ?_)
  rw [joinHalves_halves]
  exact returns_done.mpr ⟨rfl, rfl⟩

/-! ## Sequences of updates -/

/-- An update of the compare value: to a target, or to some cycles from now. -/
inductive CompareUpdate
  | target (value : UInt64)
  | after (delta : UInt64)
  deriving DecidableEq, Repr

/-- Carries out an update, and gives its target. -/
def arm (t : Timer) : CompareUpdate → Program UInt64
  | .target value => do
    t.setCompare value
    return value
  | .after delta => t.scheduleIn delta

/-- Updates made one after another from `m₀`, with their targets. Between two of them
the counter may move to anywhere, with any ticks pending. -/
inductive CompareHistory (t : Timer) (m₀ : Machine TimerModel) :
    List UInt64 → Machine TimerModel → Prop
  | start : CompareHistory t m₀ [] m₀
  | tick {targets : List UInt64} {m : Machine TimerModel} (time ticks : UInt64) :
      CompareHistory t m₀ targets m →
      CompareHistory t m₀ targets
        { m with device := { m.device with time := time, ticksAfterLow := ticks } }
  | update {targets : List UInt64} {m m' : Machine TimerModel} {u : CompareUpdate}
      {target : UInt64} :
      CompareHistory t m₀ targets m →
      Returns (Machine.platform TimerModel.bus) (t.arm u) m target m' →
      CompareHistory t m₀ (targets ++ [target]) m'

/-- What an update from `m` to `m'` does when the compare value was `old`. -/
structure UpdatesSafely (t : Timer) (u : CompareUpdate) (old target : UInt64)
    (m m' : Machine TimerModel) : Prop where
  target_eq : match u with
    | .target v => target = v
    | .after delta => ∃ now m₁,
        Returns (Machine.platform TimerModel.bus) t.time m now m₁ ∧ target = now + delta
  /-- Three compare writes, the last of the target. -/
  writes : ∃ first second,
    m'.device.compareTrace = m.device.compareTrace ++ #[first, second, target] ∧
    min old target ≤ first ∧ min old target ≤ second
  compare_eq : m'.device.compare = target
  reads_back : Returns (Machine.platform TimerModel.bus) t.compare m' target m'
  exposed : Throughout (Machine.platform TimerModel.bus) (t.arm u) m fun s =>
    min old target ≤ s.device.compare
  /-- At a moment before both targets the interrupt is not raised. -/
  not_due : ∀ now, now < old → now < target →
    Throughout (Machine.platform TimerModel.bus) (t.arm u) m fun s => ¬ s.device.compare ≤ now
  time_kept : ∀ v, u = .target v →
    Throughout (Machine.platform TimerModel.bus) (t.arm u) m fun s =>
      s.device.time = m.device.time ∧ s.device.ticksAfterLow = m.device.ticksAfterLow

theorem returns_setCompare_done {v : UInt64}
    (h : Returns (Machine.platform TimerModel.bus)
      ((t.setCompare target).bind fun _ => .done target) m v m') :
    v = target ∧ m' = { m with device := updated 0xFFFFFFFF m.device target } := by
  obtain ⟨_, m₁, hset, hdone⟩ := returns_bind.mp h
  obtain ⟨rfl, rfl⟩ := returns_done.mp hdone
  exact ⟨rfl, (hset.unique (returns_setCompare t target m)).2⟩

theorem throughout_setCompare_done (t : Timer) (target : UInt64) (m : Machine TimerModel) :
    Throughout (Machine.platform TimerModel.bus)
      ((t.setCompare target).bind fun _ => .done target) m (Updating 0xFFFFFFFF m target) :=
  (throughout_setCompare t target m).bind fun _ _ h =>
    Throughout.done ((throughout_setCompare t target m).finish h)

/-- All of an update, the reading of the counter included, shows the smaller target at
least. -/
theorem throughout_arm_min_le {u : CompareUpdate}
    (h : Returns (Machine.platform TimerModel.bus) (t.arm u) m target m') :
    Throughout (Machine.platform TimerModel.bus) (t.arm u) m fun s =>
      min m.device.compare target ≤ s.device.compare := by
  cases u with
  | target v =>
      obtain ⟨rfl, -⟩ := returns_setCompare_done h
      exact (throughout_setCompare_done t _ m).mono fun _ hs => hs.min_le
  | after delta =>
      obtain ⟨now, m₁, htime, hset⟩ := returns_bind.mp h
      obtain ⟨rfl, -⟩ := returns_setCompare_done hset
      refine ((throughout_time t m).mono fun s hs => ?_).bind fun v m₂ hv => ?_
      · rw [hs.1]
        exact Std.min_le_left
      · obtain ⟨rfl, rfl⟩ := htime.unique hv
        rw [← ((throughout_time t m).finish htime).1]
        exact (throughout_setCompare_done t _ m₁).mono fun _ hs => hs.min_le

/-- An update ends on the block that its three writes leave, from a block with the
compare half of `m`. -/
theorem exists_updated_of_arm {u : CompareUpdate}
    (h : Returns (Machine.platform TimerModel.bus) (t.arm u) m target m') :
    ∃ m₁, SameCompare m m₁ ∧ m' = { m₁ with device := updated 0xFFFFFFFF m₁.device target } := by
  cases u with
  | target v =>
      obtain ⟨rfl, hm'⟩ := returns_setCompare_done h
      exact ⟨m, ⟨rfl, rfl⟩, hm'⟩
  | after delta =>
      obtain ⟨now, m₁, htime, hset⟩ := returns_bind.mp h
      obtain ⟨rfl, hm'⟩ := returns_setCompare_done hset
      exact ⟨m₁, (throughout_time t m).finish htime, hm'⟩

theorem updatesSafely_of_returns {u : CompareUpdate}
    (h : Returns (Machine.platform TimerModel.bus) (t.arm u) m target m') :
    UpdatesSafely t u m.device.compare target m m' := by
  obtain ⟨m₁, ⟨hcompare, htrace⟩, rfl⟩ := exists_updated_of_arm h
  have hmin := throughout_arm_min_le h
  have hfinal : (updated 0xFFFFFFFF m₁.device target).compare = target := by
    rw [updated_eq, TimerModel.compare_putCompare]
  constructor
  · cases u with
    | target v => exact (returns_setCompare_done h).1
    | after delta =>
        obtain ⟨now, m₂, htime, hset⟩ := returns_bind.mp h
        exact ⟨now, m₂, htime, (returns_setCompare_done hset).1⟩
  · refine ⟨withLow m.device.compare 0xFFFFFFFF, withLow target 0xFFFFFFFF, ?_, ?_, ?_⟩
    · rw [compareTrace_updated, hcompare, htrace, exposures]
    · exact UInt64.le_trans Std.min_le_left (le_withLow_ones _)
    · exact UInt64.le_trans Std.min_le_right (le_withLow_ones _)
  · exact hfinal
  · have hback := returns_compare t { m₁ with device := updated 0xFFFFFFFF m₁.device target }
    rwa [hfinal] at hback
  · exact hmin
  · intro now hold htarget
    refine hmin.mono fun s hs hdue => ?_
    rcases Std.min_le.mp (UInt64.le_trans hs hdue) with hle | hle
    · exact UInt64.not_le.mpr hold hle
    · exact UInt64.not_le.mpr htarget hle
  · rintro v rfl
    exact (throughout_setCompare_done t v m).mono fun _ hs => hs.2

theorem compareHistory_compare_eq {m₀ : Machine TimerModel} {targets : List UInt64}
    (h : CompareHistory t m₀ targets m) :
    m.device.compare = targets.getLastD m₀.device.compare := by
  induction h with
  | start => rfl
  | tick time ticks _ ih => exact ih
  | update _ hu _ =>
      rw [(updatesSafely_of_returns hu).compare_eq]
      simp

/-- An update returns, unless it is one that reads the counter and the modelled block
cannot count its reads any further. -/
theorem exists_returns_arm (t : Timer) (u : CompareUpdate) (m : Machine TimerModel) :
    (∃ target m', Returns (Machine.platform TimerModel.bus) (t.arm u) m target m') ∨
    ((∃ delta, u = .after delta) ∧ ¬ m.device.CanRead 4 ∧
      Throughout (Machine.platform TimerModel.bus) (t.arm u) m (SameCompare m)) := by
  by_cases hret : ∃ target m', Returns (Machine.platform TimerModel.bus) (t.arm u) m target m'
  · exact Or.inl hret
  · cases u with
    | target value =>
        exact absurd ⟨_, _, (returns_setCompare t value m).bind (returns_done.mpr ⟨rfl, rfl⟩)⟩
          hret
    | after delta =>
        -- A counter that was read would be followed by an update that returns.
        have htime : ∀ now m₁,
            ¬ Returns (Machine.platform TimerModel.bus) t.time m now m₁ := fun now m₁ h =>
          hret ⟨_, _, h.bind ((returns_setCompare t (now + delta) m₁).bind
            (returns_done.mpr ⟨rfl, rfl⟩))⟩
        refine Or.inr ⟨⟨delta, rfl⟩, fun hroom => ?_, ?_⟩
        · obtain ⟨now, m₁, h⟩ := exists_returns_time (t := t) hroom
          exact htime now m₁ h
        · exact (throughout_time t m).bind fun now m₁ h => absurd h (htime now m₁)

/-- **The comparator never sees an early target.** In any sequence of updates, from any
compare value and with the counter moving in between, every update returns and is safe
against the target before it. (The modelled block counts its reads of the upper half in
a word; an update that meets the end of that count changes nothing.) -/
theorem compareHistory_updatesSafely {m₀ : Machine TimerModel} {targets : List UInt64}
    (h : CompareHistory t m₀ targets m) (u : CompareUpdate) :
    (∃ target m', Returns (Machine.platform TimerModel.bus) (t.arm u) m target m' ∧
      UpdatesSafely t u (targets.getLastD m₀.device.compare) target m m') ∨
    ((∃ delta, u = .after delta) ∧ ¬ m.device.CanRead 4 ∧
      Throughout (Machine.platform TimerModel.bus) (t.arm u) m (SameCompare m)) := by
  rcases exists_returns_arm t u m with ⟨target, m', hret⟩ | hstuck
  · rw [← compareHistory_compare_eq h]
    exact Or.inl ⟨target, m', hret, updatesSafely_of_returns hret⟩
  · exact Or.inr hstuck

/-- A second update, over a carry, after one that lowered only the lower half. -/
theorem compareHistory_updatesSafely_carry :
    ∃ m, CompareHistory ⟨MemoryMap.target.timer⟩ { device := { compare := 0x1FFFFFFFF } }
        [0x100000000] m ∧
      ∃ target m', Returns (Machine.platform TimerModel.bus)
          (arm ⟨MemoryMap.target.timer⟩ (.after 0x200000005)) m target m' ∧
        UpdatesSafely ⟨MemoryMap.target.timer⟩ (.after 0x200000005) 0x100000000 target m m' := by
  have hfirst : Returns (Machine.platform TimerModel.bus)
      (arm ⟨MemoryMap.target.timer⟩ (.target 0x100000000)) { device := { compare := 0x1FFFFFFFF } }
      0x100000000 _ := (returns_setCompare _ _ _).bind (returns_done.mpr ⟨rfl, rfl⟩)
  have hhistory := CompareHistory.start.update hfirst
  refine ⟨_, hhistory, ?_⟩
  rcases compareHistory_updatesSafely hhistory (.after 0x200000005) with h | ⟨-, hroom, -⟩
  · exact h
  · exact absurd (by decide : (0 : UInt32).toNat + 4 < 0x100000000) hroom

end BoardSupport.Timer
