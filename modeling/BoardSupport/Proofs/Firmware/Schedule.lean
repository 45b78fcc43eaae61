import BoardSupport.Proofs.Firmware.TickingTrap

/-!
# The uptime keeps to the timer

`Runs` is any run of the firmware's trap handling after the timer was started: the counter
moves on, by any amounts and also in the middle of a trap, traps of the timer come at
moments when the compare value has been reached, and traps of external channels come at
any moment. `runs_onSchedule` says of every state that is reached, within a trap or
between two, that the ticks counted are behind the counter and the next one is armed for no
earlier than it is due. So the uptime in cycles always fits, the seconds shown are the
traps of the timer so far, and two of these are at least a period apart.

The compare value is armed modulo the width of the counter. A trap of the timer may
therefore not find the counter at the last moment itself, where one period more wraps to
zero (`exists_runs_wrapped`).
-/

namespace BoardSupport.Firmware

open Program
open Session (logged)

/-! ## Runs -/

/-- The moment that the counter does not pass. -/
def lastMoment : Nat := 2 ^ 64 - tickPeriod.toNat

/-- The timer was started while the counter stood, and a new handler was put where traps
find it. -/
inductive Started : Machine RunningBoard → Prop
  | intro {m m' : Machine RunningBoard} : m.device.ticks = [] →
      Returns RunningBoard.platform (logged startTimer) m () m' →
      Started { m' with handler := some {} }

/-- A trap that may come: one of the timer when the compare value has been reached, one of
an external channel always. The counter will not pass the last moment in it, nor `latest`
in a trap of the timer. -/
inductive Comes (latest : Nat) (m : Machine RunningBoard) (ctx : TrapContext) : Prop
  | timer : ctx.cause = timerCause →
      m.device.board.timer.compare ≤ m.device.board.timer.time →
      m.device.horizon ≤ latest → Comes latest m ctx
  | channel : IsChannel ctx.cause → m.device.horizon ≤ lastMoment → Comes latest m ctx

/-- The counter when the trap is taken, if it is one of the timer. -/
def timerMoment (m : Machine RunningBoard) (ctx : TrapContext) : List Nat :=
  if ctx.cause = timerCause then [m.device.board.timer.time.toNat] else []

/-- Runs from `m₀`, with the moments at which traps of the timer were taken. Between two
traps anything may change but the handler and the compare value, and the counter does not
go back. -/
inductive Runs (latest : Nat) (m₀ : Machine RunningBoard) :
    List Nat → Machine RunningBoard → Prop
  | start : Runs latest m₀ [] m₀
  | elapse {moments : List Nat} {m : Machine RunningBoard} (m' : Machine RunningBoard) :
      Runs latest m₀ moments m → m'.handler = m.handler →
      m'.device.board.timer.compare = m.device.board.timer.compare →
      m.device.board.timer.time ≤ m'.device.board.timer.time →
      m'.device.horizon ≤ lastMoment → Runs latest m₀ moments m'
  | trap {moments : List Nat} {m m' : Machine RunningBoard} {ctx : TrapContext}
      {pending : UInt32} : Runs latest m₀ moments m → Comes latest m ctx →
      Returns RunningBoard.platform (logged trapEntry) (m.takeTrap ctx pending) () m' →
      Runs latest m₀ (moments ++ timerMoment m ctx) m'.returnFromTrap

theorem Runs.trans {latest : Nat} {m₀ m m' : Machine RunningBoard} {moments later : List Nat}
    (h : Runs latest m₀ moments m) (h' : Runs latest m later m') :
    Runs latest m₀ (moments ++ later) m' := by
  induction h' with
  | start =>
      rw [List.append_nil]
      exact h
  | elapse m' _ hhandler hcompare htime hlast ih => exact ih.elapse m' hhandler hcompare htime hlast
  | trap _ hcomes hret ih =>
      rw [← List.append_assoc]
      exact ih.trap hcomes hret

/-! ## What is kept -/

/-- The handler has counted `ticks` ticks, its uptime in seconds is just that, and it is
behind the timer. -/
def Shows (ticks : Nat) (m : Machine RunningBoard) : Prop :=
  ∃ u, m.handler = some u ∧ u.ticks.toNat = ticks ∧ seconds u = .ok u.ticks ∧
    ticks * tickPeriod.toNat ≤ m.device.board.timer.time.toNat ∧
    (ticks + 1) * tickPeriod.toNat ≤ m.device.board.timer.compare.toNat ∧
    ticks ≤ m.device.board.timer.time.toNat / clockHz.toNat

/-- The ticks counted are the traps of the timer, and these are a period apart at least. -/
structure OnSchedule (moments : List Nat) (m : Machine RunningBoard) : Prop where
  shows : Shows moments.length m
  spaced : moments.Pairwise fun earlier later => earlier + tickPeriod.toNat ≤ later

/-- What a run keeps: a tick for each moment, and all moments a period before the next
trap of the timer. -/
structure Kept (moments : List Nat) (m : Machine RunningBoard) : Prop where
  counted : ∃ u, m.handler = some u ∧ u.ticks.toNat = moments.length ∧
    Armed moments.length u m.device.board.timer.compare m.device.board.timer.time.toNat
  spaced : moments.Pairwise fun earlier later => earlier + tickPeriod.toNat ≤ later
  past : ∀ moment ∈ moments, moment + tickPeriod.toNat ≤ m.device.board.timer.compare.toNat

variable {latest : Nat} {m m' m₀ : Machine RunningBoard} {moments : List Nat} {ctx : TrapContext}
  {pending : UInt32}

theorem Armed.shows {n : Nat} {u : Uptime} (hslot : m.handler = some u)
    (h : Armed n u m.device.board.timer.compare m.device.board.timer.time.toNat) :
    Shows u.ticks.toNat m := by
  have hcycles := h.cycles_lt
  have hperiod : tickPeriod.toNat = clockHz.toNat := by decide
  refine ⟨u, hslot, rfl, seconds_eq (by rw [Nat.succ_mul] at hcycles; omega), h.behind, h.due, ?_⟩
  rw [Nat.le_div_iff_mul_le (by decide), ← hperiod]
  exact h.behind

theorem OnTime.exists_shows {n : Nat} (h : OnTime n m) :
    ∃ ticks, (ticks = n ∨ ticks = n + 1) ∧ Shows ticks m := by
  obtain ⟨u, hslot, harmed⟩ := h
  exact ⟨_, harmed.counted, harmed.shows hslot⟩

theorem Kept.onSchedule (h : Kept moments m) : OnSchedule moments m := by
  obtain ⟨⟨u, hslot, hcount, harmed⟩, hspaced, -⟩ := h
  refine ⟨?_, hspaced⟩
  rw [← hcount]
  exact harmed.shows hslot

/-! ## The start -/

theorem RunningBoard.isPart_timer (board : Board) :
    IsPart TimerModel.bus RunningBoard.bus Firmware.timer.block
      fun timer => ⟨{ board with timer }, []⟩ where
  load := by
    intro offset e
    have hload := (Board.isPart_timer board).load offset e
    simp only [RunningBoard.bus, RunningBoard.moved, hload]
    cases TimerModel.bus.load Firmware.timer.block offset e with
    | ok answer => rfl
    | error c => rfl
  store := by
    intro offset value e
    have hstore := (Board.isPart_timer board).store offset value e
    simp only [RunningBoard.bus, RunningBoard.moved, hstore]
    cases TimerModel.bus.store Firmware.timer.block offset value e with
    | ok e' => rfl
    | error c => rfl

theorem exists_returns_startTimer (hticks : m.device.ticks = []) :
    ∃ m', Returns RunningBoard.platform (logged startTimer) m () m' ∧
      m'.device.board.timer.time = 0 ∧ m'.device.board.timer.compare = tickPeriod := by
  obtain ⟨⟨board, ticks⟩, csrs, cycles, filter, handler⟩ := m
  obtain rfl : ticks = [] := hticks
  have hasks : Asks (Request.Within timer.block) startTimer :=
    (Timer.asks_setTime (fun _ _ => rfl) 0).bind fun _ => Timer.asks_setCompare (fun _ _ => rfl) _
  have halone := (Timer.returns_setTime timer 0
    { device := board.timer, csrs, cycles, filter, handler }).bind
      (f := fun _ => timer.setCompare tickPeriod) (Timer.returns_setCompare timer tickPeriod _)
  have hret := (RunningBoard.isPart_timer board).returns hasks halone
  rw [← logged_eq hasks] at hret
  refine ⟨_, hret, ?_, ?_⟩
  · show (Timer.updated 0xFFFFFFFF (board.timer.putTime 0) tickPeriod).time = 0
    simp [Timer.updated_eq, Timer.mixed_eq, Timer.parked_eq]
  · show (Timer.updated 0xFFFFFFFF (board.timer.putTime 0) tickPeriod).compare = tickPeriod
    simp [Timer.updated_eq]

theorem Started.kept (h : Started m) : Kept [] m := by
  obtain ⟨hticks, hret⟩ := h
  obtain ⟨m', hret', htime, hcompare⟩ := exists_returns_startTimer hticks
  obtain ⟨-, rfl⟩ := hret.unique hret'
  refine ⟨⟨{}, rfl, rfl, Or.inl rfl, ?_, ?_⟩, .nil, fun _ h => nomatch h⟩
  · rw [htime]
    decide
  · rw [hcompare]
    decide

/-! ## Steps -/

@[simp] theorem trapContext_takeTrap (m : Machine RunningBoard) (ctx : TrapContext)
    (pending : UInt32) : (m.takeTrap ctx pending).trapContext = ctx := by
  simp [Machine.trapContext, Machine.takeTrap, Machine.describeTrap, Machine.get_setCsr_of_ne]

theorem Kept.elapsed (h : Kept moments m) (hhandler : m'.handler = m.handler)
    (hcompare : m'.device.board.timer.compare = m.device.board.timer.compare)
    (htime : m.device.board.timer.time ≤ m'.device.board.timer.time) : Kept moments m' := by
  obtain ⟨⟨u, hslot, hcount, -, hbehind, hdue⟩, hspaced, hpast⟩ := h
  refine ⟨⟨u, hhandler.trans hslot, hcount, Or.inl hcount, ?_, ?_⟩, hspaced, ?_⟩
  · exact Nat.le_trans hbehind (UInt64.le_iff_toNat_le.mp htime)
  · rw [hcompare]
    exact hdue
  · rw [hcompare]
    exact hpast

/-- A tick at the moment that a trap of the timer was taken, and the next one armed a
period after it. -/
theorem Kept.ticked {v : Uptime} {target : UInt64} {limit : Nat} (h : Kept moments m)
    (hdue : m.device.board.timer.compare.toNat ≤ m.device.board.timer.time.toNat)
    (harmed : Armed moments.length v target m.device.board.timer.time.toNat)
    (hcount : v.ticks.toNat = moments.length + 1)
    (htarget : m.device.board.timer.time.toNat + tickPeriod.toNat ≤ target.toNat)
    (hm' : Ticking (some v) target m.device.board.timer.time.toNat limit m') :
    Kept (moments ++ [m.device.board.timer.time.toNat]) m' := by
  obtain ⟨hslot, rfl, hsince, -⟩ := hm'
  have hcount' : v.ticks.toNat = (moments ++ [m.device.board.timer.time.toNat]).length := by
    rw [List.length_append]
    exact hcount
  refine ⟨⟨v, hslot, hcount', Or.inl hcount', Nat.le_trans harmed.behind hsince, harmed.due⟩,
    List.pairwise_append.mpr ⟨h.spaced, List.pairwise_singleton _ _, ?_⟩, ?_⟩
  · -- Every moment so far is a period before the compare value, and that was reached.
    intro earlier hearlier later hlater
    obtain rfl := List.mem_singleton.mp hlater
    exact Nat.le_trans (h.past earlier hearlier) hdue
  · intro moment hmoment
    rcases List.mem_append.mp hmoment with hearlier | hnow
    · have hearlier := h.past moment hearlier
      omega
    · obtain rfl := List.mem_singleton.mp hnow
      exact htarget

/-- A trap that comes keeps the ticks on time all along, and what it leaves is kept. -/
theorem Kept.safe_trap (hlatest : latest + tickPeriod.toNat < 2 ^ 64) (h : Kept moments m)
    (hcomes : Comes latest m ctx) (pending : UInt32) :
    Safe RunningBoard.platform (OnTime moments.length) (logged trapEntry)
      (m.takeTrap ctx pending) fun _ m' => Kept (moments ++ timerMoment m ctx) m' := by
  obtain ⟨u, hslot, hcount, harmed⟩ := h.counted
  have hticking : ∀ limit, m.device.horizon ≤ limit → Ticking (some u)
      m.device.board.timer.compare m.device.board.timer.time.toNat limit (m.takeTrap ctx pending) :=
    fun _ hhorizon => ⟨hslot, rfl, Nat.le_refl _, hhorizon⟩
  have hctx := trapContext_takeTrap m ctx pending
  cases hcomes with
  | timer hcause hdue hhorizon =>
      have hdue := UInt64.le_iff_toNat_le.mp hdue
      refine (safe_timerTrap harmed (by omega) hcount hlatest hdue (hctx.symm ▸ hcause)
        (hticking _ hhorizon)).mono (fun _ => id) fun _ m' hm' => ?_
      obtain ⟨v, target, hnext, ⟨rfl, htarget⟩, hm'⟩ := hm'
      rw [timerMoment, if_pos hcause]
      exact h.ticked hdue hnext (harmed.toNat_next.trans (congrArg (· + 1) hcount)) htarget hm'
  | channel hchannel hhorizon =>
      refine (safe_channelTrap harmed (by decide) (hctx.symm ▸ hchannel)
        (hticking _ hhorizon)).mono (fun _ => id) fun _ m' hm' => ?_
      have hother : ctx.cause ≠ timerCause := by
        intro hcause
        rw [hcause] at hchannel
        exact absurd hchannel.1 (by decide)
      rw [timerMoment, if_neg hother, List.append_nil]
      exact h.elapsed (hm'.handler_eq.trans hslot.symm) hm'.clocked.compare_eq
        (UInt64.le_iff_toNat_le.mpr hm'.clocked.since_le)

theorem Runs.kept (hlatest : latest + tickPeriod.toNat < 2 ^ 64) (h₀ : Kept [] m₀)
    (h : Runs latest m₀ moments m) : Kept moments m := by
  induction h with
  | start => exact h₀
  | elapse m' _ hhandler hcompare htime _ ih => exact ih.elapsed hhandler hcompare htime
  | trap _ hcomes hret ih =>
      obtain ⟨hcounted, hspaced, hpast⟩ := (ih.safe_trap hlatest hcomes _).returned _ _ hret
      exact ⟨hcounted, hspaced, hpast⟩

/-- **The uptime keeps to the timer.** From the start of the timer on, whatever the counter
does and whichever traps come: the seconds shown are the traps of the timer so far, they
fit, they are behind the counter, and they never go back; two traps of the timer are a
period apart. Within a trap nothing overflows, and the seconds shown are those from before
it or one more. -/
theorem runs_onSchedule (hlatest : latest + tickPeriod.toNat < 2 ^ 64) (h₀ : Started m₀)
    (h : Runs latest m₀ moments m) :
    OnSchedule moments m ∧
    (∀ later m', Runs latest m later m' → OnSchedule (moments ++ later) m') ∧
    ∀ ctx pending, Comes latest m ctx →
      Throughout RunningBoard.platform (logged trapEntry) (m.takeTrap ctx pending)
        (fun s => ∃ ticks, (ticks = moments.length ∨ ticks = moments.length + 1) ∧ Shows ticks s) ∧
      ∀ n c, (advance RunningBoard.platform n (logged trapEntry) (m.takeTrap ctx pending)).1
        ≠ .fault c := by
  have hkept := h.kept hlatest h₀.kept
  refine ⟨hkept.onSchedule, fun later m' hlater => ?_, fun ctx pending hcomes => ?_⟩
  · exact ((h.trans hlater).kept hlatest h₀.kept).onSchedule
  · have hsafe := hkept.safe_trap hlatest hcomes pending
    exact ⟨hsafe.throughout.mono fun _ => OnTime.exists_shows, hsafe.unfaulted⟩

/-! ## The last moment -/

/-- A board whose first tick is armed and whose counter stands at `time`; nothing is
logged. -/
def waiting (time : UInt64) : Machine RunningBoard where
  device := { board := { timer := { time, compare := tickPeriod }, trng := { simulated := true } } }
  filter := .off
  handler := some {}

/-- The counter can come to any moment before the first trap. -/
theorem exists_runs_waiting (latest : Nat) (time : UInt64) (h : time.toNat ≤ lastMoment) :
    ∃ m₀, Started m₀ ∧ Runs latest m₀ [] (waiting time) := by
  obtain ⟨m', hret, htime, hcompare⟩ := exists_returns_startTimer (m := waiting 0) rfl
  refine ⟨_, .intro rfl hret, Runs.start.elapse (waiting time) rfl hcompare.symm ?_ ?_⟩
  · show m'.device.board.timer.time ≤ time
    rw [htime, UInt64.le_iff_toNat_le]
    exact Nat.zero_le _
  · show time.toNat + 0 + 0 ≤ lastMoment
    omega

/-- A trap of the timer just before the last moment. -/
theorem runs_onSchedule_last :
    ∃ m₀ m, Started m₀ ∧ Runs (lastMoment - 1) m₀ [lastMoment - 1] m ∧
      OnSchedule [lastMoment - 1] m := by
  obtain ⟨m₀, hstart, hruns⟩ := exists_runs_waiting (lastMoment - 1)
    (UInt64.ofNat (lastMoment - 1)) (by decide)
  have hret : ∃ m', Returns RunningBoard.platform (logged trapEntry)
      ((waiting (UInt64.ofNat (lastMoment - 1))).takeTrap ⟨timerCause, 0, 0⟩ 0) () m' :=
    ⟨_, 1, rfl⟩
  obtain ⟨m', hret⟩ := hret
  have hruns := hruns.trap (.timer rfl (by decide) (by decide)) hret
  exact ⟨m₀, _, hstart, hruns, (runs_onSchedule (by decide) hstart hruns).1⟩

/-- A trap of the timer at the last moment itself arms the timer for a moment that is long
past. -/
theorem exists_runs_wrapped :
    ∃ m₀ m, Started m₀ ∧ Runs lastMoment m₀ [lastMoment] m ∧
      m.device.board.timer.compare = 0 ∧ ¬ OnSchedule [lastMoment] m := by
  obtain ⟨m₀, hstart, hruns⟩ := exists_runs_waiting lastMoment (UInt64.ofNat lastMoment)
    (by decide)
  have hret : ∃ m', Returns RunningBoard.platform (logged trapEntry)
      ((waiting (UInt64.ofNat lastMoment)).takeTrap ⟨timerCause, 0, 0⟩ 0) () m' ∧
        m'.device.board.timer.compare = 0 :=
    ⟨_, ⟨1, rfl⟩, rfl⟩
  obtain ⟨m', hret, hcompare⟩ := hret
  have hruns := hruns.trap (.timer rfl (by decide) (by decide)) hret
  refine ⟨m₀, _, hstart, hruns, hcompare, fun h => ?_⟩
  obtain ⟨u, -, -, -, -, hdue, -⟩ := h.shows
  change _ ≤ m'.device.board.timer.compare.toNat at hdue
  rw [hcompare] at hdue
  exact absurd hdue (by decide)

end BoardSupport.Firmware
