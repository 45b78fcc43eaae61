import BoardSupport.Firmware.Board
import BoardSupport.Firmware.Settings
import BoardSupport.Proofs.Device.Part
import BoardSupport.Proofs.Program.Safe
import BoardSupport.Proofs.Timer.Scheduling

/-!
# A board whose counter runs

The counter of a `RunningBoard` moves before each access of a register, by amounts that
are given with the board. What is to come is known in advance, so that a bound on all of it
(`RunningBoard.horizon`) is a bound on the counter from now on.

`Ticking` says where a run stands with the timer: the handler slot, the compare value, a
moment that the counter has reached and one that it will not pass. A request that spares
the timer and the slot keeps it (`Ticking.answered`); reading the counter gives a value
that it had meanwhile (`Ticking.safe_time`), and an update of the compare value goes by
values no smaller than the old one (`Ticking.safe_setCompare`).
-/

namespace BoardSupport

open Program

/-- The upper half that is the same on both sides is that of a value in between. -/
theorem joinHalves_of_le {a b c : UInt64} (hab : a.toNat ≤ b.toNat) (hbc : b.toNat ≤ c.toNat)
    (h : highHalf c = highHalf a) : joinHalves (highHalf a) (lowHalf b) = b := by
  have hhigh : highHalf a = highHalf b := by
    have hca := congrArg UInt32.toNat h
    rw [toNat_highHalf, toNat_highHalf] at hca
    apply UInt32.toNat_inj.mp
    rw [toNat_highHalf, toNat_highHalf]
    omega
  rw [hhigh, joinHalves_halves]

namespace TimerModel

theorem high_of_load {d t : TimerModel} {value : UInt32}
    (h : TimerModel.load Timer.Register.timeHigh.offset d = .ok (value, t)) :
    value = highHalf d.time := by
  simp only [TimerModel.load, Timer.Register.ofOffset?_offset] at h
  split at h
  · cases h
  · cases h
    rfl

theorem low_of_load {d t : TimerModel} {value : UInt32}
    (h : TimerModel.load Timer.Register.timeLow.offset d = .ok (value, t)) :
    value = lowHalf d.time := by
  simp only [TimerModel.load, Timer.Register.ofOffset?_offset] at h
  cases h
  rfl

/-- A read changes nothing of the count, or lets pending ticks pass. -/
theorem moved_of_load {offset : Nat} {d t : TimerModel} {value : UInt32}
    (h : TimerModel.load offset d = .ok (value, t)) :
    t.compare = d.compare ∧ (t.time = d.time ∧ t.ticksAfterLow = d.ticksAfterLow ∨
      t.time = d.time + d.ticksAfterLow ∧ t.ticksAfterLow = 0) := by
  simp only [TimerModel.load] at h
  split at h
  · cases h
    exact ⟨rfl, Or.inr ⟨rfl, rfl⟩⟩
  · split at h
    · cases h
    · cases h
      exact ⟨rfl, Or.inl ⟨rfl, rfl⟩⟩
  · cases h
    exact ⟨rfl, Or.inl ⟨rfl, rfl⟩⟩
  · cases h
    exact ⟨rfl, Or.inl ⟨rfl, rfl⟩⟩
  · cases h

end TimerModel

namespace Firmware

/-- A board whose counter moves, before each access of a register, by the next of
`ticks`. When they are used up it stands. -/
structure RunningBoard where
  board : Board
  ticks : List UInt64 := []

namespace RunningBoard

/-- The board after the next of the ticks. -/
def moved (s : RunningBoard) : RunningBoard :=
  match s.ticks with
  | [] => s
  | n :: rest =>
    ⟨{ s.board with timer := { s.board.timer with time := s.board.timer.time + n } }, rest⟩

def bus : Bus RunningBoard where
  load b offset s := do
    let (value, board) ← Board.bus.load b offset s.moved.board
    return (value, { s.moved with board })
  store b offset value s := do
    return { s.moved with board := ← Board.bus.store b offset value s.moved.board }

/-- A running board with its hart. -/
abbrev platform : Platform (Machine RunningBoard) := Machine.platform bus

/-- The counter once everything that is to pass has passed. -/
def horizon (s : RunningBoard) : Nat :=
  s.board.timer.time.toNat + s.board.timer.ticksAfterLow.toNat + (s.ticks.map UInt64.toNat).sum

end RunningBoard

/-! ## Accesses -/

/-- A read through a part comes from a read of the part. -/
theorem exists_of_load_ok {ε δ : Type} {x : Except Fault (UInt32 × ε)} (put : ε → δ)
    {value : UInt32} {d : δ}
    (h : (x >>= fun r => pure (r.1, put r.2)) = .ok (value, d)) :
    ∃ e, x = .ok (value, e) ∧ d = put e := by
  cases x with
  | error c => cases h
  | ok r =>
      cases h
      exact ⟨r.2, rfl, rfl⟩

/-- A write through a part comes from a write of the part. -/
theorem exists_of_store_ok {ε δ : Type} {x : Except Fault ε} (put : ε → δ) {d : δ}
    (h : (x >>= fun e => pure (put e)) = .ok d) : ∃ e, x = .ok e ∧ d = put e := by
  cases x with
  | error c => cases h
  | ok e =>
      cases h
      exact ⟨e, rfl, rfl⟩

/-- A read changes nothing of the timer, unless it is one of the timer. -/
theorem Board.timer_of_load {b : Block} {offset : Nat} {s s' : Board} {value : UInt32}
    (h : Board.bus.load b offset s = .ok (value, s')) :
    s'.timer = s.timer ∨ TimerModel.load offset s.timer = .ok (value, s'.timer) := by
  simp only [Board.bus] at h
  split at h
  · obtain ⟨timer, htimer, rfl⟩ := exists_of_load_ok (fun timer => { s with timer }) h
    exact Or.inr htimer
  · obtain ⟨uart, -, rfl⟩ := exists_of_load_ok (fun uart => { s with uart }) h
    exact Or.inl rfl
  · obtain ⟨gpio, -, rfl⟩ := exists_of_load_ok (fun gpio => { s with gpio }) h
    exact Or.inl rfl
  · obtain ⟨trng, -, rfl⟩ := exists_of_load_ok (fun trng => { s with trng }) h
    exact Or.inl rfl
  · cases h
    exact Or.inl rfl

/-- A write of the console changes nothing of the timer. -/
theorem Board.timer_of_store {offset : Nat} {v : UInt32} {s s' : Board}
    (h : Board.bus.store console.block offset v s = .ok s') : s'.timer = s.timer := by
  have hat : BoardBlock.at? console.block = some .uart := by decide
  simp only [Board.bus, hat] at h
  obtain ⟨uart, -, rfl⟩ := exists_of_store_ok (fun uart => { s with uart }) h
  rfl

/-- The timer's registers are reached under its address. -/
theorem Board.load_timer {offset : Nat} {s s' : Board} {value : UInt32}
    (h : Board.bus.load Firmware.timer.block offset s = .ok (value, s')) :
    TimerModel.load offset s.timer = .ok (value, s'.timer) := by
  have hat : BoardBlock.at? Firmware.timer.block = some .timer := by decide
  simp only [Board.bus, hat] at h
  obtain ⟨t, ht, rfl⟩ := exists_of_load_ok (fun timer => { s with timer }) h
  exact ht

theorem Board.store_timer {r : Timer.Register} {v : UInt32} {s s' : Board}
    (h : Board.bus.store Firmware.timer.block r.offset v s = .ok s') :
    s'.timer = s.timer.put v r := by
  have hat : BoardBlock.at? Firmware.timer.block = some .timer := by decide
  simp only [Board.bus, hat] at h
  obtain ⟨t, ht, rfl⟩ := exists_of_store_ok (fun timer => { s with timer }) h
  have hput := (TimerModel.store_offset r v s.timer).symm.trans ht
  cases hput
  rfl

/-! ## Between two moments -/

/-- The timer holds `compare`; its counter has reached `since` and will not pass `limit`. -/
structure Clocked (compare : UInt64) (since limit : Nat) (s : RunningBoard) : Prop where
  compare_eq : s.board.timer.compare = compare
  since_le : since ≤ s.board.timer.time.toNat
  horizon_le : s.horizon ≤ limit

namespace Clocked

variable {compare : UInt64} {since limit : Nat} {s s' : RunningBoard}

theorem time_le (h : Clocked compare since limit s) : s.board.timer.time.toNat ≤ limit := by
  have hle := h.horizon_le
  unfold RunningBoard.horizon at hle
  omega

theorem moved (h : Clocked compare since limit s) (hlimit : limit < 2 ^ 64) :
    Clocked compare since limit s.moved ∧
      s.board.timer.time.toNat ≤ s.moved.board.timer.time.toNat := by
  obtain ⟨board, ticks⟩ := s
  cases ticks with
  | nil => exact ⟨h, Nat.le_refl _⟩
  | cons n rest =>
      obtain ⟨hcompare, hsince, hhorizon⟩ := h
      simp only [RunningBoard.horizon, List.map_cons, List.sum_cons] at hsince hhorizon
      have hadd : (board.timer.time + n).toNat = board.timer.time.toNat + n.toNat :=
        toNat_add_of_lt (by omega)
      refine ⟨⟨hcompare, ?_, ?_⟩, ?_⟩
      · show since ≤ (board.timer.time + n).toNat
        rw [hadd]
        omega
      · show (board.timer.time + n).toNat + board.timer.ticksAfterLow.toNat
          + (rest.map UInt64.toNat).sum ≤ limit
        rw [hadd]
        omega
      · show board.timer.time.toNat ≤ (board.timer.time + n).toNat
        rw [hadd]
        omega

/-- A read of the timer at most lets the ticks pass that were to pass after it. -/
theorem loaded {offset : Nat} {value : UInt32} (h : Clocked compare since limit s)
    (hlimit : limit < 2 ^ 64) (s' : RunningBoard)
    (hload : TimerModel.load offset s.board.timer = .ok (value, s'.board.timer))
    (hticks : s'.ticks = s.ticks) :
    Clocked compare since limit s' ∧ s.board.timer.time.toNat ≤ s'.board.timer.time.toNat := by
  obtain ⟨hcompare, hsince, hhorizon⟩ := h
  obtain ⟨hcompare', hpending⟩ := TimerModel.moved_of_load hload
  unfold RunningBoard.horizon at hhorizon
  have hpassed : s.board.timer.time.toNat ≤ s'.board.timer.time.toNat ∧
      s'.board.timer.time.toNat + s'.board.timer.ticksAfterLow.toNat
        = s.board.timer.time.toNat + s.board.timer.ticksAfterLow.toNat := by
    rcases hpending with ⟨htime, hafter⟩ | ⟨htime, hafter⟩
    · rw [htime, hafter]
      exact ⟨Nat.le_refl _, rfl⟩
    · rw [htime, hafter, toNat_add_of_lt (by omega)]
      exact ⟨Nat.le_add_right _ _, rfl⟩
  refine ⟨⟨hcompare'.trans hcompare, Nat.le_trans hsince hpassed.1, ?_⟩, hpassed.1⟩
  rw [RunningBoard.horizon, hpassed.2, hticks]
  exact hhorizon

/-- Everything but the timer's own halves of the compare value may be accessed. -/
theorem of_timer_eq (h : Clocked compare since limit s)
    (hs' : s'.board.timer = s.board.timer) (hticks : s'.ticks = s.ticks) :
    Clocked compare since limit s' := by
  obtain ⟨hcompare, hsince, hhorizon⟩ := h
  refine ⟨by rw [hs', hcompare], by rw [hs']; exact hsince, ?_⟩
  rw [RunningBoard.horizon, hs', hticks]
  exact hhorizon

end Clocked

/-! ## On a hart -/

/-- The handler slot holds `slot`, the timer `compare`; the counter has reached `since`
and will not pass `limit`. -/
structure Ticking (slot : Option Uptime) (compare : UInt64) (since limit : Nat)
    (m : Machine RunningBoard) : Prop where
  handler_eq : m.handler = slot
  clocked : Clocked compare since limit m.device

/-- A request that changes nothing of the timer and of the handler slot; the counter runs
on. -/
def SparesTimer : Request → Prop
  | .store b _ _ => b = console.block
  | .setHandlerSlot _ => False
  | _ => True

namespace Ticking

variable {slot : Option Uptime} {compare : UInt64} {since limit : Nat}
  {m m' : Machine RunningBoard}

theorem answered {r : Request} {v : r.Reply} (hr : SparesTimer r) (hlimit : limit < 2 ^ 64)
    (h : Ticking slot compare since limit m)
    (hv : RunningBoard.platform r m = .returned v m') : Ticking slot compare since limit m' := by
  obtain ⟨hslot, hclock⟩ := h
  cases r with
  | load b offset =>
      obtain ⟨d, hd, rfl⟩ := Machine.exists_of_platform_load hv
      obtain ⟨board, hboard, rfl⟩ :=
        exists_of_load_ok (fun board => { m.device.moved with board }) hd
      refine ⟨hslot, ?_⟩
      rcases Board.timer_of_load hboard with hsame | hload
      · exact (hclock.moved hlimit).1.of_timer_eq hsame rfl
      · exact ((hclock.moved hlimit).1.loaded hlimit { m.device.moved with board } hload rfl).1
  | store b offset value =>
      obtain rfl : b = console.block := hr
      obtain ⟨d, hd, rfl⟩ := Machine.exists_of_platform_store hv
      obtain ⟨board, hboard, rfl⟩ :=
        exists_of_store_ok (fun board => { m.device.moved with board }) hd
      exact ⟨hslot, (hclock.moved hlimit).1.of_timer_eq (Board.timer_of_store hboard) rfl⟩
  | readCsr c =>
      cases hv
      unfold Machine.afterCsrRead
      split
      · exact ⟨hslot, hclock⟩
      · exact ⟨hslot, hclock⟩
  | updateCsr c op =>
      cases hr : m.csrs.refusal c with
      | none =>
          rw [RunningBoard.platform, Machine.platform_updateCsr hr] at hv
          cases hv
          exact ⟨hslot, hclock⟩
      | some e =>
          rw [RunningBoard.platform, Machine.platform_updateCsr_refused hr] at hv
          cases hv
          exact ⟨hslot, hclock⟩
  | setHandlerSlot slot => exact hr.elim
  | waitForInterrupt => cases hv
  | _ =>
      cases hv
      exact ⟨hslot, hclock⟩

/-- What a program that spares the timer keeps. -/
theorem safe {α : Type} {x : Program α} (hx : Asks SparesTimer x) (hlimit : limit < 2 ^ 64)
    (h : Ticking slot compare since limit m) :
    Safe RunningBoard.platform (Ticking slot compare since limit) x m
      fun _ => Ticking slot compare since limit :=
  hx.safe (fun _ _ _ _ hr hs => hs.answered hr hlimit) h

/-! ### Reading the counter -/

/-- A read of a register shows the timer as it was at a moment meanwhile. -/
theorem read {r : Timer.Register} {value : UInt32} (h : Ticking slot compare since limit m)
    (hlimit : limit < 2 ^ 64)
    (hret : Returns RunningBoard.platform (timer.readWord r) m value m') :
    ∃ d, TimerModel.load r.offset d = .ok (value, m'.device.board.timer) ∧
      m.device.board.timer.time.toNat ≤ d.time.toNat ∧
      d.time.toNat ≤ m'.device.board.timer.time.toNat ∧
      Ticking slot compare since limit m' := by
  obtain ⟨d, hd, rfl⟩ := Machine.exists_of_platform_load (returns_request_iff.mp hret)
  obtain ⟨board, hboard, rfl⟩ := exists_of_load_ok (fun board => { m.device.moved with board }) hd
  obtain ⟨hclock, hle⟩ := h.clocked.moved hlimit
  have hload := Board.load_timer hboard
  obtain ⟨hclock', hle'⟩ := hclock.loaded hlimit { m.device.moved with board } hload rfl
  exact ⟨_, hload, hle, hle', h.handler_eq, hclock'⟩

/-- A pass that gives a value gives one that the counter had meanwhile. -/
theorem pass {now : UInt64} (h : Ticking slot compare since limit m) (hlimit : limit < 2 ^ 64)
    (hret : Returns RunningBoard.platform timer.pass m (some now) m') :
    since ≤ now.toNat ∧ now.toNat ≤ limit := by
  obtain ⟨high, m₁, hhigh, hret⟩ := returns_bind.mp hret
  obtain ⟨low, m₂, hlow, hret⟩ := returns_bind.mp hret
  obtain ⟨again, m₃, hagain, hdone⟩ := returns_bind.mp hret
  obtain ⟨d₁, hload₁, hle₁, hle₁', h₁⟩ := h.read hlimit hhigh
  obtain ⟨d₂, hload₂, hle₂, hle₂', h₂⟩ := h₁.read hlimit hlow
  obtain ⟨d₃, hload₃, hle₃, hle₃', h₃⟩ := h₂.read hlimit hagain
  obtain ⟨hnow, -⟩ := returns_done.mp hdone
  -- The upper half is read on both sides of the lower one; unchanged, it is the one that
  -- belongs to it.
  by_cases hsame : again = high
  · rw [if_pos hsame] at hnow
    obtain rfl := Option.some.inj hnow
    rw [TimerModel.high_of_load hload₁, TimerModel.high_of_load hload₃] at hsame
    rw [TimerModel.high_of_load hload₁, TimerModel.low_of_load hload₂,
      joinHalves_of_le (Nat.le_trans hle₁' hle₂) (Nat.le_trans hle₂' hle₃) hsame]
    have hsince := h.clocked.since_le
    have hlast := h₃.clocked.time_le
    exact ⟨by omega, by omega⟩
  · rw [if_neg hsame] at hnow
    cases hnow

/-- **The counter is read as it was meanwhile.** -/
theorem safe_time (h : Ticking slot compare since limit m) (hlimit : limit < 2 ^ 64) :
    Safe RunningBoard.platform (Ticking slot compare since limit) timer.time m fun now s =>
      (since ≤ now.toNat ∧ now.toNat ≤ limit) ∧ Ticking slot compare since limit s := by
  have hpass : Asks SparesTimer timer.pass := Timer.asks_pass fun _ => trivial
  obtain ⟨hthroughout, hunfaulted, hreturned⟩ := h.safe hpass.poll hlimit
  refine ⟨hthroughout, hunfaulted, fun now s hret => ⟨?_, hreturned now s hret⟩⟩
  obtain ⟨t, ht, hattempt⟩ := hret.exists_attempt
    (fun t u ht hnone => (ht.safe hpass hlimit).returned _ _ hnone) h
  exact ht.pass hlimit hattempt

/-! ### Updating the compare value -/

/-- A write of one half of the compare value. -/
theorem written {r : Timer.Register} {value : UInt32} {compare' : UInt64}
    (h : Ticking slot compare since limit m) (hlimit : limit < 2 ^ 64)
    (hput : ∀ d : TimerModel, d.compare = compare → (d.put value r).compare = compare' ∧
      (d.put value r).time = d.time ∧ (d.put value r).ticksAfterLow = d.ticksAfterLow)
    (hv : RunningBoard.platform (.store timer.block r.offset value) m = .returned () m') :
    Ticking slot compare' since limit m' := by
  obtain ⟨d, hd, rfl⟩ := Machine.exists_of_platform_store hv
  obtain ⟨board, hboard, rfl⟩ :=
    exists_of_store_ok (fun board => { m.device.moved with board }) hd
  obtain ⟨⟨hcompare, hsince, hhorizon⟩, -⟩ := h.clocked.moved hlimit
  obtain ⟨hcompare', htime, hafter⟩ := hput _ hcompare
  refine ⟨h.handler_eq, ?_, ?_, ?_⟩
  · show board.timer.compare = _
    rw [Board.store_timer hboard, hcompare']
  · show since ≤ board.timer.time.toNat
    rw [Board.store_timer hboard, htime]
    exact hsince
  · show board.timer.time.toNat + board.timer.ticksAfterLow.toNat + _ ≤ limit
    rw [Board.store_timer hboard, htime, hafter]
    exact hhorizon

theorem writtenLow {value : UInt32} (h : Ticking slot compare since limit m)
    (hlimit : limit < 2 ^ 64)
    (hv : RunningBoard.platform (.store timer.block Timer.Register.compareLow.offset value) m
      = .returned () m') : Ticking slot (withLow compare value) since limit m' :=
  h.written hlimit (fun d hd => by simp [hd]) hv

theorem writtenHigh {value : UInt32} (h : Ticking slot compare since limit m)
    (hlimit : limit < 2 ^ 64)
    (hv : RunningBoard.platform (.store timer.block Timer.Register.compareHigh.offset value) m
      = .returned () m') : Ticking slot (withHigh compare value) since limit m' :=
  h.written hlimit (fun d hd => by simp [hd]) hv

/-- **The compare value goes up without going down first.** An update to a later value
shows no value before the old one. -/
theorem safe_setCompare {target : UInt64} (h : Ticking slot compare since limit m)
    (hlimit : limit < 2 ^ 64) (hle : compare ≤ target) :
    Safe RunningBoard.platform
      (fun s => ∃ shown, compare ≤ shown ∧ Ticking slot shown since limit s)
      (timer.setCompare target) m fun _ => Ticking slot target since limit := by
  have hparked := le_withLow_ones compare
  have hmixed : withHigh (withLow compare 0xFFFFFFFF) (highHalf target)
      = withLow target 0xFFFFFFFF := withHigh_highHalf _ _ _
  have hdone : withLow (withLow target 0xFFFFFFFF) (lowHalf target) = target := by
    rw [withLow_withLow, withLow_lowHalf]
  -- The lower half is parked at its largest, the upper half moves on under it, and only
  -- then does the lower half come down to the target.
  refine Safe.bind (Q := fun _ => Ticking slot (withLow compare 0xFFFFFFFF) since limit)
    (Safe.request ⟨compare, UInt64.le_refl _, h⟩ fun _ s hs => ?_) fun _ m₁ _ h₁ => ?_
  · have hs := h.writtenLow hlimit hs
    exact ⟨⟨_, hparked, hs⟩, hs⟩
  refine Safe.bind (Q := fun _ => Ticking slot (withLow target 0xFFFFFFFF) since limit)
    (Safe.request ⟨_, hparked, h₁⟩ fun _ s hs => ?_) fun _ m₂ _ h₂ => ?_
  · have hs := h₁.writtenHigh hlimit hs
    rw [hmixed] at hs
    exact ⟨⟨_, UInt64.le_trans hle (le_withLow_ones _), hs⟩, hs⟩
  · refine Safe.request ⟨_, UInt64.le_trans hle (le_withLow_ones _), h₂⟩ fun _ s hs => ?_
    have hs := h₂.writtenLow hlimit hs
    rw [hdone] at hs
    exact ⟨⟨_, hle, hs⟩, hs⟩

end Ticking

end Firmware

end BoardSupport
