import Mathlib.Data.List.Induction
import BoardSupport.Proofs.Timer.Scheduling

/-!
# Loading a counter that runs

The counter ticks on while `setTime` writes its halves. Between the first write and the
last the lower half has counted from zero, so it does not carry as long as fewer than
2 ^ 32 ticks pass (`play_started`): the upper half is the old one and then the new one,
and the last write leaves the target to the cycle. The mixed values on the way are not
past the larger of the old value and the target by more than the ticks that have passed,
so a compare value farther ahead of both is not reached (`setTime_loads_running`).
-/

namespace BoardSupport

namespace TimerModel

/-- The counter moves on by one. -/
def tick (d : TimerModel) : TimerModel := d.putTime (d.time + 1)

/-- The counter is at or past the compare value. -/
def Expired (d : TimerModel) : Prop := d.compare ≤ d.time

end TimerModel

namespace Timer

open Program

/-! ## A run with ticks in it -/

/-- The machine with another count. -/
def counting (m : Machine TimerModel) (c : UInt64) : Machine TimerModel :=
  { m with device := m.device.putTime c }

/-- What happens next to a program and the counter: the program makes its next access, or
the counter ticks. -/
inductive Event
  | access | tick
  deriving DecidableEq, Repr

def occur (x : Program Unit × Machine TimerModel) : Event → Program Unit × Machine TimerModel
  | .access => step (Machine.platform TimerModel.bus) x.1 x.2
  | .tick => (x.1, { x.2 with device := x.2.device.tick })

def play (events : List Event) (x : Program Unit × Machine TimerModel) :
    Program Unit × Machine TimerModel :=
  events.foldl occur x

theorem play_append (before after : List Event) (x : Program Unit × Machine TimerModel) :
    play (before ++ after) x = play after (play before x) := List.foldl_append

theorem play_singleton (e : Event) (x : Program Unit × Machine TimerModel) :
    play [e] x = occur x e := rfl

section Occur

variable (t : Timer) (m : Machine TimerModel) (x : Program Unit) (k : Unit → Program Unit)

theorem occur_writeLow (c : UInt64) (low : UInt32) :
    occur ((t.writeWord .timeLow low).bind k, counting m c) .access
      = (k (), counting m (withLow c low)) := by
  refine (t.step_writeWord .timeLow low k (counting m c)).trans ?_
  rw [TimerModel.put_timeLow]
  rfl

theorem occur_writeHigh (c : UInt64) (high : UInt32) :
    occur ((t.writeWord .timeHigh high).bind k, counting m c) .access
      = (k (), counting m (withHigh c high)) := by
  refine (t.step_writeWord .timeHigh high k (counting m c)).trans ?_
  rw [TimerModel.put_timeHigh]
  rfl

theorem occur_tick (c : UInt64) : occur (x, counting m c) .tick = (x, counting m (c + 1)) := rfl

end Occur

/-- What happens between the first access of three and the last. -/
def between (d₁ d₂ : Nat) : List Event :=
  List.replicate d₁ .tick ++ .access :: List.replicate d₂ .tick

/-- Three accesses, with ticks after the first and after the second. -/
def loading (d₁ d₂ : Nat) : List Event := .access :: (between d₁ d₂ ++ [.access])

theorem count_tick_between (d₁ d₂ : Nat) : (between d₁ d₂).count .tick = d₁ + d₂ := by
  simp [between]

theorem count_access_between (d₁ d₂ : Nat) : (between d₁ d₂).count .access = 1 := by
  simp [between, List.count_replicate]

/-! ## The writes -/

variable (t : Timer) (v : UInt64) (m : Machine TimerModel)

/-- What `setTime` has left to do after `n` of its writes. -/
def unloaded : Nat → Program Unit
  | 0 => t.setTime v
  | 1 => (t.writeWord .timeHigh (highHalf v)).bind fun _ => t.writeWord .timeLow (lowHalf v)
  | 2 => t.writeWord .timeLow (lowHalf v)
  | _ => .done ()

/-- The counter after the first write and `n` more of them, `e` ticks after the first. -/
def transient (o v : UInt64) (n e : Nat) : UInt64 :=
  joinHalves (highHalf (if n = 0 then o else v)) (UInt32.ofNat e)

theorem occur_first : occur (t.setTime v, m) .access
    = (t.unloaded v 1, counting m (transient m.device.time v 0 0)) :=
  t.occur_writeLow m (fun _ => t.unloaded v 1) m.device.time 0

theorem occur_second (o : UInt64) (e : Nat) :
    occur (t.unloaded v 1, counting m (transient o v 0 e)) .access
      = (t.unloaded v 2, counting m (transient o v 1 e)) := by
  refine (t.occur_writeHigh m (fun _ => t.unloaded v 2) _ (highHalf v)).trans ?_
  rw [withHigh, transient, lowHalf_joinHalves]
  rfl

theorem occur_third (o : UInt64) (e : Nat) :
    occur (t.unloaded v 2, counting m (transient o v 1 e)) .access = (.done (), counting m v) := by
  refine (t.occur_writeLow m .done _ (lowHalf v)).trans ?_
  rw [transient, if_neg (by decide), withLow, highHalf_joinHalves, joinHalves_halves]

/-- The lower half does not carry. -/
theorem transient_add_one (o v : UInt64) (n : Nat) {e : Nat} (h : e + 1 < 2 ^ 32) :
    transient o v n e + 1 = transient o v n (e + 1) := by
  have hhigh := (highHalf (if n = 0 then o else v)).toNat_lt
  have hone : (1 : UInt64).toNat = 1 := rfl
  apply UInt64.toNat_inj.mp
  rw [UInt64.toNat_add, transient, transient, toNat_joinHalves, toNat_joinHalves,
    UInt32.toNat_ofNat', UInt32.toNat_ofNat', hone]
  omega

/-- From the first write to the last the lower half is the ticks since then. -/
theorem play_started (events : List Event) (hticks : events.count .tick < 2 ^ 32)
    (hwrites : events.count .access ≤ 1) :
    play (.access :: events) (t.setTime v, m)
      = (t.unloaded v (events.count .access + 1), counting m
          (transient m.device.time v (events.count .access) (events.count .tick))) := by
  induction events using List.reverseRecOn with
  | nil => exact t.occur_first v m
  | append_singleton before e ih =>
      rw [← List.cons_append, play_append, play_singleton]
      cases e with
      | access =>
          have hsame : (before ++ [Event.access]).count .tick = before.count .tick := by simp
          have hmore : (before ++ [Event.access]).count .access = before.count .access + 1 := by
            simp
          rw [hsame] at hticks ⊢
          rw [hmore] at hwrites ⊢
          have hfirst : before.count .access = 0 := by omega
          rw [ih hticks (by omega), hfirst]
          exact t.occur_second v m _ _
      | tick =>
          have hsame : (before ++ [Event.tick]).count .access = before.count .access := by simp
          have hmore : (before ++ [Event.tick]).count .tick = before.count .tick + 1 := by simp
          rw [hmore] at hticks ⊢
          rw [hsame] at hwrites ⊢
          rw [ih (by omega) hwrites, occur_tick, transient_add_one _ v _ hticks]

/-- The counter on the way is mixed of the old value and the target, over the ticks since
the first write. -/
theorem toNat_transient_le (o v : UInt64) (n : Nat) {e : Nat} (h : e < 2 ^ 32) :
    (transient o v n e).toNat ≤ max o.toNat v.toNat + e := by
  have hupper : (if n = 0 then o else v).toNat ≤ max o.toNat v.toNat := by
    split
    · exact Nat.le_max_left _ _
    · exact Nat.le_max_right _ _
  rw [transient, toNat_joinHalves, toNat_highHalf, UInt32.toNat_ofNat']
  omega

/-! ## The whole call -/

/-- The last write leaves the target, whatever the counter has got to. -/
theorem play_loading {d₁ d₂ : Nat} (h : d₁ + d₂ < 2 ^ 32) :
    play (loading d₁ d₂) (t.setTime v, m) = (.done (), counting m v) := by
  have hticks : (between d₁ d₂).count .tick < 2 ^ 32 := by rwa [count_tick_between]
  have hwrites : (between d₁ d₂).count .access ≤ 1 := Nat.le_of_eq (count_access_between d₁ d₂)
  rw [loading, ← List.cons_append, play_append, play_singleton,
    play_started t v m _ hticks hwrites, count_access_between]
  exact t.occur_third v m _ _

/-- At every moment of the call only the counter has changed, and it is not past the old
value and the target by more than the ticks since the first write. -/
theorem play_before {d₁ d₂ : Nat} (h : d₁ + d₂ < 2 ^ 32) {before : List Event}
    (hbefore : before <+: loading d₁ d₂) :
    ∃ c, (play before (t.setTime v, m)).2 = counting m c ∧
      c.toNat ≤ max m.device.time.toNat v.toNat + before.count .tick := by
  cases before with
  | nil => exact ⟨m.device.time, rfl, Nat.le_add_right_of_le (Nat.le_max_left _ _)⟩
  | cons first rest =>
      obtain ⟨rfl, hrest⟩ := List.cons_prefix_cons.mp hbefore
      rcases List.prefix_concat_iff.mp hrest with rfl | hrest
      · have hend := congrArg Prod.snd (play_loading t v m h)
        exact ⟨v, hend, Nat.le_add_right_of_le (Nat.le_max_right _ _)⟩
      · have hticks : rest.count .tick < 2 ^ 32 := by
          have hle := hrest.sublist.count_le Event.tick
          rw [count_tick_between] at hle
          omega
        have hwrites : rest.count .access ≤ 1 :=
          Nat.le_trans (hrest.sublist.count_le Event.access)
            (Nat.le_of_eq (count_access_between d₁ d₂))
        refine ⟨_, congrArg Prod.snd (play_started t v m rest hticks hwrites), ?_⟩
        rw [List.count_cons_of_ne (by decide)]
        exact toNat_transient_le _ v _ hticks

/-- **A running counter is loaded to the cycle.** Whatever ticks pass after the first write
and after the second, fewer than 2 ^ 32 together, the counter is at the target right after
the last write. At each moment of the call it is not past the larger of the value found and
the target by more than the ticks that have passed since the first write, and so it does not
reach a compare value that is farther ahead of both. -/
theorem setTime_loads_running (t : Timer) (v : UInt64) (m : Machine TimerModel) (d₁ d₂ : Nat)
    (h : d₁ + d₂ < 2 ^ 32) :
    play (loading d₁ d₂) (t.setTime v, m) = (.done (), counting m v) ∧
      ∀ before, before <+: loading d₁ d₂ → ∃ c,
        (play before (t.setTime v, m)).2 = counting m c ∧
        c.toNat ≤ max m.device.time.toNat v.toNat + before.count .tick ∧
        (m.device.time.toNat + (d₁ + d₂) < m.device.compare.toNat →
          v.toNat + (d₁ + d₂) < m.device.compare.toNat → ¬ (counting m c).device.Expired) := by
  refine ⟨t.play_loading v m h, fun before hbefore => ?_⟩
  obtain ⟨c, hmachine, hle⟩ := t.play_before v m h hbefore
  refine ⟨c, hmachine, hle, fun hold htarget hexpired => ?_⟩
  have hticks : before.count .tick ≤ d₁ + d₂ := by
    have hcount := hbefore.sublist.count_le Event.tick
    rw [loading, List.count_cons_of_ne (by decide), List.count_append, count_tick_between] at hcount
    exact hcount
  have hreached : m.device.compare.toNat ≤ c.toNat := UInt64.le_iff_toNat_le.mp hexpired
  omega

/-- A counter two ticks before a carry, with three ticks after the first write and two after
the second, and a target as near to the next carry. -/
theorem setTime_loads_running_carry :
    let t : Timer := ⟨MemoryMap.full.timer⟩
    let m : Machine TimerModel := { device := { time := 0x1FFFFFFFE, compare := 0x300000009 } }
    3 + 2 < 2 ^ 32 ∧
    0x1FFFFFFFE + (3 + 2) < m.device.compare.toNat ∧
    0x2FFFFFFFE + (3 + 2) < m.device.compare.toNat ∧
    play (loading 3 2) (t.setTime 0x2FFFFFFFE, m)
      = (.done (), { device := { time := 0x2FFFFFFFE, compare := 0x300000009 } }) ∧
    ∀ before, before <+: loading 3 2 →
      ¬ (play before (t.setTime 0x2FFFFFFFE, m)).2.device.Expired := by
  intro t m
  obtain ⟨hend, hmoments⟩ := setTime_loads_running t 0x2FFFFFFFE m 3 2 (by decide)
  refine ⟨by decide, by decide, by decide, hend, fun before hbefore => ?_⟩
  obtain ⟨c, hmachine, -, hclear⟩ := hmoments before hbefore
  rw [hmachine]
  exact hclear (by decide) (by decide)

end Timer

end BoardSupport
