import BoardSupport.Proofs.Program.Interruption
import BoardSupport.Proofs.Timer.Compare

/-!
# A trap handler that rearms the compare register

The compare register is two words, and the driver takes no care that they belong together:
an update interrupted by another one goes on with its own halves over the other one's, and
a reading interrupted between the halves joins an old one with a new one. Which point of
the run is hit decides what is mixed (`torn`, `seen`): the value left is one of the two
targets, and the value read is the old or the new one, unless the point is the one between
the two halves and the values share neither half (`rearming_mixes_halves`). A mixed value
may be earlier than all three.
-/

namespace BoardSupport.Timer

open Program

/-! ## What is mixed -/

def SharesHalf (v w : UInt64) : Prop := highHalf v = highHalf w ∨ lowHalf v = lowHalf w

/-- The value, mixed of the two targets, that an update to `a` leaves for a moment or for
good when it is interrupted after its first `n` writes by an update to `b`. -/
def torn (n : Nat) (a b : UInt64) : Option UInt64 :=
  match n with
  | 1 => some (joinHalves (highHalf a) (lowHalf b))
  | 2 => some (joinHalves (highHalf b) (lowHalf a))
  | _ => none

/-- The value in the register at the end. -/
def settled (n : Nat) (a b : UInt64) : UInt64 :=
  match n with
  | 0 | 1 => a
  | 2 => joinHalves (highHalf b) (lowHalf a)
  | _ => b

/-- What the comparator sees after each write, those of the interruption included. -/
def exposed (n : Nat) (old a b : UInt64) : Array UInt64 :=
  let parkedAt (v : UInt64) := withLow v 0xFFFFFFFF
  match n with
  | 0 => #[parkedAt old, parkedAt b, b, parkedAt b, parkedAt a, a]
  | 1 => #[parkedAt old, parkedAt old, parkedAt b, b, joinHalves (highHalf a) (lowHalf b), a]
  | 2 => #[parkedAt old, parkedAt a, parkedAt a, parkedAt b, b, joinHalves (highHalf b) (lowHalf a)]
  | _ => #[parkedAt old, parkedAt a, a, parkedAt a, parkedAt b, b]

/-- What a reading of the register gives when it is interrupted after its first `n` reads
by an update to `b`. -/
def seen (n : Nat) (old b : UInt64) : UInt64 :=
  match n with
  | 0 => b
  | 1 => joinHalves (highHalf old) (lowHalf b)
  | _ => old

theorem joinHalves_eq_iff {high low : UInt32} {v : UInt64} :
    joinHalves high low = v ↔ high = highHalf v ∧ low = lowHalf v := by
  constructor
  · rintro rfl
    simp
  · rintro ⟨rfl, rfl⟩
    exact joinHalves_halves v

/-- A value mixed of two is one of them only if they share a half. -/
theorem joinHalves_eq_or_iff (v w : UInt64) :
    joinHalves (highHalf v) (lowHalf w) = v ∨ joinHalves (highHalf v) (lowHalf w) = w ↔
      SharesHalf v w := by
  rw [joinHalves_eq_iff, joinHalves_eq_iff, SharesHalf]
  constructor
  · rintro (⟨-, h⟩ | ⟨h, -⟩)
    · exact Or.inr h.symm
    · exact Or.inl h
  · rintro (h | h)
    · exact Or.inr ⟨h, rfl⟩
    · exact Or.inl ⟨rfl, h.symm⟩

theorem SharesHalf.symm {v w : UInt64} (h : SharesHalf v w) : SharesHalf w v :=
  h.imp Eq.symm Eq.symm

theorem settled_eq_or_iff (n : Nat) (a b : UInt64) :
    settled n a b = a ∨ settled n a b = b ↔ (n = 2 → SharesHalf a b) := by
  match n with
  | 0 | 1 => simp [settled]
  | 2 =>
      rw [settled, or_comm, joinHalves_eq_or_iff]
      exact ⟨fun h _ => h.symm, fun h => (h rfl).symm⟩
  | n + 3 => simp [settled]

theorem seen_eq_or_iff (n : Nat) (old b : UInt64) :
    seen n old b = old ∨ seen n old b = b ↔ (n = 1 → SharesHalf old b) := by
  match n with
  | 0 => simp [seen]
  | 1 =>
      rw [seen, joinHalves_eq_or_iff]
      exact ⟨fun h _ => h, fun h => h rfl⟩
  | n + 2 => simp [seen]

/-- Only a mixed value can be earlier than the old value and both targets. -/
theorem min_le_exposed_iff (n : Nat) (old a b : UInt64) :
    (∀ v ∈ exposed n old a b, min old (min a b) ≤ v) ↔
      ∀ v ∈ torn n a b, min old (min a b) ≤ v := by
  have hold : min old (min a b) ≤ old := Std.min_le_left
  have ha : min old (min a b) ≤ a := UInt64.le_trans Std.min_le_right Std.min_le_left
  have hb : min old (min a b) ≤ b := UInt64.le_trans Std.min_le_right Std.min_le_right
  have hparked : ∀ v, min old (min a b) ≤ v → min old (min a b) ≤ withLow v 0xFFFFFFFF :=
    fun v hv => UInt64.le_trans hv (le_withLow_ones v)
  match n with
  | 0 | 1 | 2 | n + 3 => simp [exposed, torn, hold, ha, hb, hparked]

/-! ## Where a run is interrupted -/

section Cuts

variable (t : Timer) (a : UInt64)

/-- What an update has left to do after `n` of its writes. -/
def remaining : Nat → Program Unit
  | 0 => t.setCompare a
  | 1 => (t.writeWord .compareHigh (highHalf a)).bind fun _ => t.writeWord .compareLow (lowHalf a)
  | 2 => t.writeWord .compareLow (lowHalf a)
  | _ => .done ()

/-- The block after `n` writes of an update. -/
def written (d : TimerModel) : Nat → TimerModel
  | 0 => d
  | 1 => parked 0xFFFFFFFF d
  | 2 => mixed 0xFFFFFFFF d a
  | _ => updated 0xFFFFFFFF d a

theorem advance_setCompare (m : Machine TimerModel) (n : Nat) :
    advance (Machine.platform TimerModel.bus) n (t.setCompare a) m
      = (t.remaining a n, { m with device := written a m.device n }) := by
  have hfirst : step (Machine.platform TimerModel.bus) (t.setCompare a) m
      = (t.remaining a 1, { m with device := written a m.device 1 }) :=
    t.step_writeWord .compareLow 0xFFFFFFFF (fun _ => t.remaining a 1) m
  have hsecond : step (Machine.platform TimerModel.bus) (t.remaining a 1)
        { m with device := written a m.device 1 }
      = (t.remaining a 2, { m with device := written a m.device 2 }) :=
    t.step_writeWord .compareHigh (highHalf a) (fun _ => t.remaining a 2) _
  have hthird : step (Machine.platform TimerModel.bus) (t.remaining a 2)
        { m with device := written a m.device 2 }
      = (.done (), { m with device := written a m.device 3 }) :=
    t.step_writeWord .compareLow (lowHalf a) .done _
  match n with
  | 0 => rfl
  | 1 => exact advance_of_step hfirst 0
  | 2 => rw [advance_of_step hfirst, advance_of_step hsecond, advance]
  | n + 3 =>
      rw [advance_of_step hfirst, advance_of_step hsecond, advance_of_step hthird]
      exact advance_of_finished (x := .done ()) trivial n _

end Cuts

/-! ## An interrupted update -/

variable {t : Timer} {m mid : Machine TimerModel} {rearm : CompareUpdate} {a b : UInt64}

/-- A handler that rearms the register leaves its target there, behind the three writes of
an update from the value it found. -/
theorem rearmed (h : Returns (Machine.platform TimerModel.bus) (t.arm rearm) m b mid) :
    mid.device.compare = b ∧ mid.device.compareTrace
      = m.device.compareTrace ++ exposures 0xFFFFFFFF m.device.compare b := by
  obtain ⟨m₁, ⟨hcompare, htrace⟩, rfl⟩ := exists_updated_of_arm h
  constructor
  · show (updated 0xFFFFFFFF m₁.device b).compare = b
    rw [updated_eq, TimerModel.compare_putCompare]
  · show (updated 0xFFFFFFFF m₁.device b).compareTrace = _
    rw [compareTrace_updated, hcompare, htrace]

/-- What the comparator sees of the rest of an update to `a` that finds `b`. -/
def resumed (n : Nat) (a b : UInt64) : Array UInt64 :=
  match n with
  | 0 => exposures 0xFFFFFFFF b a
  | 1 => #[joinHalves (highHalf a) (lowHalf b), a]
  | 2 => #[joinHalves (highHalf b) (lowHalf a)]
  | _ => #[]

/-- The rest of an update goes on with its own halves, whatever it finds. -/
theorem exists_returns_remaining (t : Timer) (a : UInt64) (n : Nat) (m : Machine TimerModel) :
    ∃ m', Returns (Machine.platform TimerModel.bus) (t.remaining a n) m () m' ∧
      m'.device.compare = settled n a m.device.compare ∧
      m'.device.compareTrace = m.device.compareTrace ++ resumed n a m.device.compare := by
  match n with
  | 0 =>
      refine ⟨_, returns_setCompare t a m, ?_, compareTrace_updated _⟩
      simp [updated_eq, settled]
  | 1 =>
      refine ⟨_, (returns_writeWord t .compareHigh _ m).bind
        (returns_writeWord t .compareLow _ _), ?_, ?_⟩
      · simp [settled, withHigh, withLow]
      · apply Array.ext'
        simp [resumed, withHigh, withLow]
  | 2 =>
      refine ⟨_, returns_writeWord t .compareLow _ m, ?_, ?_⟩
      · simp [settled, withLow]
      · apply Array.ext'
        simp [resumed, withLow]
  | n + 3 =>
      refine ⟨m, returns_done.mpr ⟨rfl, rfl⟩, rfl, ?_⟩
      simp [resumed]

/-- The three parts of what the comparator sees: the first writes, the update of the
handler, and the rest. -/
theorem exposed_eq (n : Nat) (a b : UInt64) (d : TimerModel) :
    d.compareTrace ++ exposed n d.compare a b = (written a d n).compareTrace
      ++ exposures 0xFFFFFFFF (written a d n).compare b ++ resumed n a b := by
  apply Array.ext'
  match n with
  | 0 | 1 | 2 | n + 3 =>
      simp [exposed, written, exposures, resumed, parked_eq, mixed_eq, updated_eq]

/-- An update interrupted by another one returns. What it leaves and what the comparator
has seen depend on the point of the interruption. -/
theorem exists_interrupted_setCompare {n : Nat}
    (h : Returns (Machine.platform TimerModel.bus) (t.arm rearm)
      (advance (Machine.platform TimerModel.bus) n (t.setCompare a) m).2 b mid) :
    ∃ m', Interrupted (Machine.platform TimerModel.bus) (t.setCompare a) (t.arm rearm) n m mid
        () m' ∧
      m'.device.compare = settled n a b ∧
      m'.device.compareTrace
        = m.device.compareTrace ++ exposed n m.device.compare a b := by
  have hhandled := h
  rw [t.advance_setCompare] at h
  obtain ⟨hcompare, htrace⟩ := rearmed h
  obtain ⟨m', hrest, hleft, hseen⟩ := exists_returns_remaining t a n mid
  refine ⟨m', ⟨⟨b, hhandled⟩, ?_⟩, ?_, ?_⟩
  · rw [t.advance_setCompare]
    exact hrest
  · rw [hleft, hcompare]
  · rw [hseen, hcompare, htrace, exposed_eq]

/-! ## An interrupted reading -/

/-- What a reading of the register has left to do after `n` of its reads. -/
def unread (t : Timer) (old : UInt64) : Nat → Program UInt64
  | 0 => t.compare
  | 1 => (t.readWord .compareLow).bind fun low => .done (joinHalves (highHalf old) low)
  | _ => .done old

theorem advance_compare (t : Timer) (m : Machine TimerModel) (n : Nat) :
    advance (Machine.platform TimerModel.bus) n t.compare m
      = (t.unread m.device.compare n, m) := by
  have hfirst : step (Machine.platform TimerModel.bus) t.compare m
      = (t.unread m.device.compare 1, m) := rfl
  have hsecond : step (Machine.platform TimerModel.bus) (t.unread m.device.compare 1) m
      = (.done m.device.compare, m) := by
    show (Program.done (joinHalves (highHalf m.device.compare) (lowHalf m.device.compare)), m) = _
    rw [joinHalves_halves]
  match n with
  | 0 => rfl
  | 1 => exact advance_of_step hfirst 0
  | n + 2 =>
      rw [advance_of_step hfirst, advance_of_step hsecond]
      exact advance_of_finished (x := .done m.device.compare) trivial n m

theorem returns_unread (t : Timer) (old : UInt64) (n : Nat) (m : Machine TimerModel) :
    Returns (Machine.platform TimerModel.bus) (t.unread old n) m
      (seen n old m.device.compare) m := by
  match n with
  | 0 => exact returns_compare t m
  | 1 => exact (Machine.returns_read rfl).bind (returns_done.mpr ⟨rfl, rfl⟩)
  | n + 2 => exact returns_done.mpr ⟨rfl, rfl⟩

theorem interrupted_compare {n : Nat}
    (h : Returns (Machine.platform TimerModel.bus) (t.arm rearm)
      (advance (Machine.platform TimerModel.bus) n t.compare m).2 b mid) :
    Interrupted (Machine.platform TimerModel.bus) t.compare (t.arm rearm) n m mid
      (seen n m.device.compare b) mid := by
  refine ⟨⟨b, h⟩, ?_⟩
  rw [← (rearmed h).1, t.advance_compare]
  exact t.returns_unread _ n mid

/-! ## Both -/

/-- **A handler that rearms the register mixes two values where it comes between their
halves.** Let a trap handler set the compare value to `b`, or to some cycles from now that
come to `b`, after `n` accesses of a foreground update to `a`. The update returns and
leaves `a` or `b`, except after two of its writes, when the two must share a half; and the
comparator has seen no value earlier than the old one and both targets but for the mixed
one. A foreground reading interrupted after `n` accesses gives the old value or `b`,
except between its two reads, when those must share a half. -/
theorem rearming_mixes_halves (t : Timer) (rearm : CompareUpdate) (n : Nat)
    (m mid : Machine TimerModel) (b : UInt64) :
    let old := m.device.compare
    (∀ a, Returns (Machine.platform TimerModel.bus) (t.arm rearm)
        (advance (Machine.platform TimerModel.bus) n (t.setCompare a) m).2 b mid →
      ∃ m', Interrupted (Machine.platform TimerModel.bus) (t.setCompare a) (t.arm rearm) n m mid
          () m' ∧
        m'.device.compare = settled n a b ∧
        m'.device.compareTrace = m.device.compareTrace ++ exposed n old a b ∧
        (m'.device.compare = a ∨ m'.device.compare = b ↔ (n = 2 → SharesHalf a b)) ∧
        ((∀ v ∈ exposed n old a b, min old (min a b) ≤ v) ↔
          ∀ v ∈ torn n a b, min old (min a b) ≤ v)) ∧
    (Returns (Machine.platform TimerModel.bus) (t.arm rearm)
        (advance (Machine.platform TimerModel.bus) n t.compare m).2 b mid →
      ∃ v, Interrupted (Machine.platform TimerModel.bus) t.compare (t.arm rearm) n m mid v mid ∧
        v = seen n old b ∧ (v = old ∨ v = b ↔ (n = 1 → SharesHalf old b))) := by
  refine ⟨fun a h => ?_, fun h => ?_⟩
  · obtain ⟨m', hint, hleft, hseen⟩ := exists_interrupted_setCompare h
    refine ⟨m', hint, hleft, hseen, ?_, min_le_exposed_iff n _ a b⟩
    rw [hleft]
    exact settled_eq_or_iff n a b
  · exact ⟨_, interrupted_compare h, rfl, seen_eq_or_iff n _ b⟩

/-- A tick that comes before the last write of an update: the upper half of the one target
stays with the lower half of the other. The same tick, between the two reads of a reading. -/
theorem rearming_mixes_halves_tick :
    let t : Timer := ⟨MemoryMap.full.timer⟩
    let m : Machine TimerModel := { device := { compare := 0x1FFFFFFFF } }
    let tick : CompareUpdate := .after 0x200000000
    (∃ mid, Returns (Machine.platform TimerModel.bus) (t.arm tick)
        (advance (Machine.platform TimerModel.bus) 2 (t.setCompare 0x100000005) m).2 0x200000000
        mid ∧
      ∃ m', Interrupted (Machine.platform TimerModel.bus) (t.setCompare 0x100000005) (t.arm tick) 2
          m mid () m' ∧
        m'.device.compare = 0x200000005) ∧
    ∃ mid, Returns (Machine.platform TimerModel.bus) (t.arm tick)
        (advance (Machine.platform TimerModel.bus) 1 t.compare m).2 0x200000000 mid ∧
      Interrupted (Machine.platform TimerModel.bus) t.compare (t.arm tick) 1 m mid 0x100000000
        mid := by
  have hset : ∃ mid, Returns (Machine.platform TimerModel.bus)
      (arm ⟨MemoryMap.full.timer⟩ (.after 0x200000000))
      (advance (Machine.platform TimerModel.bus) 2
        (setCompare ⟨MemoryMap.full.timer⟩ 0x100000005)
        { device := { compare := 0x1FFFFFFFF } }).2 0x200000000 mid := ⟨_, 1, rfl⟩
  have hread : ∃ mid, Returns (Machine.platform TimerModel.bus)
      (arm ⟨MemoryMap.full.timer⟩ (.after 0x200000000))
      (advance (Machine.platform TimerModel.bus) 1 (compare ⟨MemoryMap.full.timer⟩)
        { device := { compare := 0x1FFFFFFFF } }).2 0x200000000 mid := ⟨_, 1, rfl⟩
  intro t m tick
  obtain ⟨mid, hmid⟩ := hset
  obtain ⟨mid', hmid'⟩ := hread
  constructor
  · obtain ⟨m', hint, hleft, -⟩ :=
      (rearming_mixes_halves t tick 2 m mid 0x200000000).1 0x100000005 hmid
    exact ⟨mid, hmid, m', hint, hleft.trans (by decide)⟩
  · obtain ⟨v, hint, hv, -⟩ := (rearming_mixes_halves t tick 1 m mid' 0x200000000).2 hmid'
    obtain rfl : v = 0x100000000 := hv.trans (by decide)
    exact ⟨mid', hmid', hint⟩

/-- Against a handler that rearms the register, an update may leave neither target, the
comparator may see a value earlier than the old one and both targets, and a reading may
give neither the old value nor the new one. -/
theorem rearming_tears :
    (¬ ∀ (t : Timer) (a b : UInt64) (n : Nat) (m mid m' : Machine TimerModel),
      Interrupted (Machine.platform TimerModel.bus) (t.setCompare a) (t.setCompare b) n m mid ()
        m' → m'.device.compare = a ∨ m'.device.compare = b) ∧
    (¬ ∀ (t : Timer) (a b : UInt64) (n : Nat) (m mid m' : Machine TimerModel),
      m.device.compareTrace = #[] →
      Interrupted (Machine.platform TimerModel.bus) (t.setCompare a) (t.setCompare b) n m mid ()
        m' → ∀ v ∈ m'.device.compareTrace, min m.device.compare (min a b) ≤ v) ∧
    ¬ ∀ (t : Timer) (b v : UInt64) (n : Nat) (m mid m' : Machine TimerModel),
      Interrupted (Machine.platform TimerModel.bus) t.compare (t.setCompare b) n m mid v m' →
        v = m.device.compare ∨ v = b := by
  refine ⟨fun h => ?_, fun h => ?_, fun h => ?_⟩
  · have hleft := h ⟨MemoryMap.full.timer⟩ 0x100000005 0x200000000 2
      { device := { compare := 0x1FFFFFFFF } } _ _ ⟨⟨(), 0, rfl⟩, 0, rfl⟩
    exact absurd hleft (by decide)
  · let m : Machine TimerModel := { device := { compare := 0x1FFFFFFFF } }
    have hearly : ∃ mid m', Interrupted (Machine.platform TimerModel.bus)
        (setCompare ⟨MemoryMap.full.timer⟩ 0x1FFFFFFFF)
        (setCompare ⟨MemoryMap.full.timer⟩ 0x200000000) 1 m mid () m' ∧
        m'.device.compareTrace = #[0x1FFFFFFFF, 0x1FFFFFFFF, 0x2FFFFFFFF, 0x200000000,
          0x100000000, 0x1FFFFFFFF] :=
      ⟨_, _, ⟨⟨(), 0, rfl⟩, 0, rfl⟩, by decide +kernel⟩
    obtain ⟨mid, m', hint, htrace⟩ := hearly
    have hseen := h _ _ _ _ m mid m' rfl hint 0x100000000 (by rw [htrace]; simp)
    exact absurd hseen (by decide)
  · have hread := h ⟨MemoryMap.full.timer⟩ 0x200000000 0x100000000 1
      { device := { compare := 0x1FFFFFFFF } } _ _ ⟨⟨(), 0, rfl⟩, 0, rfl⟩
    exact absurd hread (by decide)

end BoardSupport.Timer
