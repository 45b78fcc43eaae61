import BoardSupport.Proofs.Firmware.RunningBoard
import BoardSupport.Proofs.Firmware.TrapPath

/-!
# Traps on a board whose counter runs

`Armed` relates what three places hold: the ticks counted, the compare value, and the
counter. It is kept all through a trap of the timer and through one of an external
channel, however far the counter moves in between (`safe_timerTrap`, `safe_channelTrap`).
A trap of the timer comes at a moment when the compare value has been reached, so one tick
more is still behind the counter; and the value that is armed then is one period after a
reading of the counter that is no older than the trap.
-/

namespace BoardSupport.Firmware

open Program
open Session (logged)

/-- `n` ticks are counted, or one more by a trap that is not over; they are behind the
counter, which has reached `since`, and the next one is armed for no earlier than it is
due. -/
structure Armed (n : Nat) (u : Uptime) (compare : UInt64) (since : Nat) : Prop where
  counted : u.ticks.toNat = n ∨ u.ticks.toNat = n + 1
  behind : u.ticks.toNat * tickPeriod.toNat ≤ since
  due : (u.ticks.toNat + 1) * tickPeriod.toNat ≤ compare.toNat

/-- A handler is installed, and its ticks are behind the timer. -/
def OnTime (n : Nat) (m : Machine RunningBoard) : Prop :=
  ∃ u, m.handler = some u ∧
    Armed n u m.device.board.timer.compare m.device.board.timer.time.toNat

variable {n : Nat} {u : Uptime} {slot : Option Uptime} {compare : UInt64} {since limit : Nat}
  {m : Machine RunningBoard} {ctx : TrapContext}

namespace Armed

theorem mono {compare' : UInt64} (h : Armed n u compare since) (hle : compare ≤ compare') :
    Armed n u compare' since :=
  ⟨h.counted, h.behind, Nat.le_trans h.due (UInt64.le_iff_toNat_le.mp hle)⟩

theorem onTime (h : Armed n u compare since) (hm : Ticking (some u) compare since limit m) :
    OnTime n m := by
  obtain ⟨hslot, hcompare, hsince, -⟩ := hm
  refine ⟨u, hslot, h.counted, Nat.le_trans h.behind hsince, ?_⟩
  rw [hcompare]
  exact h.due

theorem cycles_lt (h : Armed n u compare since) :
    (u.ticks.toNat + 1) * tickPeriod.toNat < 2 ^ 64 :=
  Nat.lt_of_le_of_lt h.due compare.toNat_lt

theorem ticks_lt (h : Armed n u compare since) : u.ticks.toNat + 1 < 2 ^ 64 := by
  have hcycles := h.cycles_lt
  have hperiod : tickPeriod.toNat = 32000000 := by decide
  rw [hperiod] at hcycles
  omega

theorem toNat_next (h : Armed n u compare since) : (u.ticks + 1).toNat = u.ticks.toNat + 1 :=
  toNat_add_of_lt h.ticks_lt

/-- One tick more, once the compare value was reached and moved on by a period. -/
theorem next {target : UInt64} (h : Armed n u compare since) (hcount : u.ticks.toNat = n)
    (hdue : compare.toNat ≤ since) (htarget : since + tickPeriod.toNat ≤ target.toNat) :
    Armed n ⟨u.ticks + 1⟩ target since := by
  have hnext := h.toNat_next
  have hreached := Nat.le_trans h.due hdue
  refine ⟨Or.inr ?_, ?_, ?_⟩
  · rw [← hcount]
    exact hnext
  · show (u.ticks + 1).toNat * _ ≤ since
    rw [hnext]
    exact hreached
  · show ((u.ticks + 1).toNat + 1) * _ ≤ target.toNat
    rw [hnext, Nat.succ_mul]
    omega

end Armed

/-! ## What spares the timer -/

theorem sparesTimer_of_within {r : Request} (h : r.Within console.block) : SparesTimer r := by
  cases r with
  | store b offset value => exact h
  | setHandlerSlot slot => exact h
  | _ => trivial

/-- Logging spares the timer: it is the console that prints. -/
theorem asks_logged {α : Type} {x : Program α} (h : Asks SparesTimer x) :
    Asks SparesTimer (logged x) :=
  h.withLogger (fun _ => (asks_print _).mono fun _ => sparesTimer_of_within) fun _ hr _ => hr

theorem asks_report {level : LogLevel} {target : LogTarget} {message : Program String}
    (h : Asks SparesTimer message) : Asks SparesTimer (report level target message) :=
  Asks.report trivial (fun _ => trivial) h

theorem asks_disableAll : Asks SparesTimer Interrupts.disableAll :=
  (Interrupts.asks_disableAll (b := console.block)).mono fun _ => sparesTimer_of_within

theorem asks_maskAllOrReport (target : LogTarget) : Asks SparesTimer (maskAllOrReport target) := by
  refine asks_disableAll.bind fun result => ?_
  cases result with
  | ok _ => exact .done _
  | error e => exact asks_report (.done _)

theorem asks_parkHart {α : Type} (f : Empty → Program α) :
    Asks SparesTimer (parkHart.bind f) := by
  refine Asks.bind (asks_disableAll.bind fun _ => ?_) fun never => nomatch never
  exact .loop (fun _ => (Asks.request trivial).bind fun _ => .done _) fun never => nomatch never

theorem asks_capture : Asks SparesTimer TrapContext.capture :=
  (Asks.request trivial).bind fun _ => (Asks.request trivial).bind fun _ =>
    (Asks.request trivial).bind fun _ => .done _

/-! ## The entry around a hook -/

/-- The hook of the handler: the trap is routed, and then accounted for. -/
theorem safe_onInterrupt {Q : Routed → Machine RunningBoard → Prop}
    {R : Uptime → Machine RunningBoard → Prop}
    (hroute : Safe RunningBoard.platform (OnTime n) (logged (router.route ctx)) m Q)
    (haccount : ∀ routed s, Q routed s →
      Safe RunningBoard.platform (OnTime n) (logged (account routed u)) s R) :
    Safe RunningBoard.platform (OnTime n) (logged (handler.optional.onInterrupt ctx (some u))) m
      fun r t => ∃ v, r.2 = some v ∧ R v t := by
  show Safe _ _ (logged (((router.route ctx).bind fun routed => (account routed u).bind fun v =>
    .done (routed.action, v)).bind fun r => .done (r.1, some r.2))) _ _
  rw [bind_assoc, logged_bind]
  refine hroute.bind fun routed s _ hs => ?_
  rw [bind_assoc, logged_bind]
  exact (haccount routed s hs).bind_done fun v _ hv => ⟨v, rfl, hv⟩

section Trap

variable (ha : Armed n u compare since) (hlimit : limit < 2 ^ 64)

include ha hlimit

/-- What spares the timer keeps the ticks on time. -/
theorem safe_logged {α : Type} {x : Program α} (hx : Asks SparesTimer x)
    (h : Ticking (some u) compare since limit m) :
    Safe RunningBoard.platform (OnTime n) (logged x) m
      fun _ => Ticking (some u) compare since limit :=
  (h.safe (asks_logged hx) hlimit).mono (fun _ => ha.onTime) fun _ _ => id

/-- What the hook of an interrupt keeps, the dispatcher keeps. -/
theorem safe_dispatch {Q : Uptime → UInt64 → Prop} (hkind : m.trapContext.isInterrupt = true)
    (h : Ticking (some u) compare since limit m)
    (hhook : ∀ s, Ticking (some u) compare since limit s →
      Safe RunningBoard.platform (OnTime n)
        (logged (handler.optional.onInterrupt m.trapContext (some u))) s fun r t =>
          ∃ v, r.2 = some v ∧ ∃ c, Armed n v c since ∧ Q v c ∧
            Ticking (some u) c since limit t) :
    Safe RunningBoard.platform (OnTime n) (logged (Dispatcher.dispatch handler.optional ⟨some u⟩)) m
      fun r t => ∃ v c, r.2 = ⟨some v⟩ ∧ Armed n v c since ∧ Q v c ∧
        Ticking (some u) c since limit t := by
  have hcapture := (safe_logged ha hlimit asks_capture h).of_returns
    (v := m.trapContext) (t := m) ⟨0, rfl⟩
  rw [Dispatcher.dispatch, bind_eq, logged_bind]
  refine hcapture.bind fun ctx t _ ht => ?_
  obtain ⟨rfl, rfl⟩ := ht
  rw [bind_eq, logged_bind]
  refine (safe_logged ha hlimit (asks_report (.done _)) h).bind fun _ s _ hs => ?_
  rw [if_pos hkind, bind_eq, logged_bind]
  refine (hhook s hs).bind_done fun r t hr => ?_
  obtain ⟨v, hv, c, hrest⟩ := hr
  exact ⟨v, c, congrArg _ hv, hrest⟩

/-- The handler is put back, and the hart may be parked. -/
theorem safe_settle (action : TrapAction) (h : Ticking slot compare since limit m)
    (hm : OnTime n m) :
    Safe RunningBoard.platform (OnTime n) (logged (do
        request (.setHandlerSlot (some u))
        if action = .halt then
          let never ← parkHart
          nomatch never)) m fun _ => Ticking (some u) compare since limit := by
  have hput : Safe RunningBoard.platform (OnTime n) (request (.setHandlerSlot (some u))) m
      fun _ => Ticking (some u) compare since limit := by
    refine Safe.request hm fun _ t ht => ?_
    cases ht
    have hput : Ticking (some u) compare since limit { m with handler := some u } :=
      ⟨rfl, h.clocked⟩
    exact ⟨ha.onTime hput, hput⟩
  rw [bind_eq, logged_bind]
  refine hput.bind fun _ t _ ht => ?_
  by_cases hhalt : action = .halt
  · rw [if_pos hhalt]
    exact safe_logged ha hlimit (asks_parkHart _) ht
  · rw [if_neg hhalt]
    exact safe_logged ha hlimit (.done _) ht

/-- An interrupt keeps the ticks on time if its hook does and answers with a handler that
is on time as well. -/
theorem safe_trapEntry {Q : Uptime → UInt64 → Prop} (hkind : m.trapContext.isInterrupt = true)
    (h : Ticking (some u) compare since limit m)
    (hhook : ∀ s, Ticking (some u) compare since limit s →
      Safe RunningBoard.platform (OnTime n)
        (logged (handler.optional.onInterrupt m.trapContext (some u))) s fun r t =>
          ∃ v, r.2 = some v ∧ ∃ c, Armed n v c since ∧ Q v c ∧
            Ticking (some u) c since limit t) :
    Safe RunningBoard.platform (OnTime n) (logged trapEntry) m fun _ t =>
      ∃ v c, Armed n v c since ∧ Q v c ∧ Ticking (some v) c since limit t := by
  have hslot := (safe_logged ha hlimit (Asks.request (r := .handlerSlot) trivial) h).of_returns
    (v := m.handler) (t := m) ⟨0, rfl⟩
  rw [trapEntry, bind_eq, logged_bind]
  refine hslot.bind fun slot t _ ht => ?_
  obtain ⟨rfl, rfl⟩ := ht
  rw [bind_eq, logged_bind, h.handler_eq]
  refine (safe_dispatch ha hlimit hkind h hhook).bind fun r s hs hr => ?_
  obtain ⟨action, dispatcher⟩ := r
  obtain ⟨v, c, hv, hav, hQ, hticking⟩ := hr
  obtain rfl : dispatcher = ⟨some v⟩ := hv
  exact (safe_settle hav hlimit action hticking hs).mono (fun _ => id) fun _ _ ht =>
    ⟨v, c, hav, hQ, ht⟩

/-! ## A trap of the timer -/

/-- The timer is armed for one period after a moment since the trap. -/
theorem safe_route_timer (hroom : limit + tickPeriod.toNat < 2 ^ 64) (hdue : compare.toNat ≤ since)
    (hcause : ctx.cause = timerCause) (h : Ticking (some u) compare since limit m) :
    Safe RunningBoard.platform (OnTime n) (logged (router.route ctx)) m fun routed t =>
      ∃ target : UInt64, routed = .tick target ∧ since + tickPeriod.toNat ≤ target.toNat ∧
        Ticking (some u) target since limit t := by
  have hasks : Asks (Request.Within timer.block) (timer.scheduleIn tickPeriod) :=
    Timer.asks_scheduleIn (fun _ => rfl) (fun _ _ => rfl) _
  rw [Router.route, TrapContext.trap_timer hcause]
  show Safe _ _ (logged ((timer.scheduleIn tickPeriod).bind fun target =>
    .done (Routed.tick target))) _ _
  rw [logged_bind, logged_eq hasks]
  refine Safe.bind_done (Q := fun target t => since + tickPeriod.toNat ≤ target.toNat ∧
    Ticking (some u) target since limit t) ?_ fun target t ht => ⟨target, rfl, ht.1, ht.2⟩
  have htime := (h.safe_time hlimit).mono (fun _ => ha.onTime) fun _ _ => id
  refine htime.bind fun now s _ hnow => ?_
  obtain ⟨⟨hsince, hnow⟩, hs⟩ := hnow
  -- The reading is no older than the trap, and what is left above it leaves room for a period.
  have htarget : (now + tickPeriod).toNat = now.toNat + tickPeriod.toNat :=
    toNat_add_of_lt (by omega)
  have hle : compare ≤ now + tickPeriod := by
    rw [UInt64.le_iff_toNat_le, htarget]
    omega
  have hset : Safe RunningBoard.platform (OnTime n) (timer.setCompare (now + tickPeriod)) s
      fun _ => Ticking (some u) (now + tickPeriod) since limit := by
    refine (hs.safe_setCompare hlimit hle).mono (fun t ht => ?_) fun _ _ => id
    obtain ⟨shown, hshown, hticking⟩ := ht
    exact (ha.mono hshown).onTime hticking
  refine hset.bind_done fun _ t ht => ⟨?_, ht⟩
  rw [htarget]
  omega

/-- The tick is counted. -/
theorem safe_account_timer {target : UInt64} (h : Ticking (some u) compare since limit m) :
    Safe RunningBoard.platform (OnTime n) (logged (account (.tick target) u)) m fun v t =>
      v = ⟨u.ticks + 1⟩ ∧ Ticking (some u) compare since limit t := by
  have hseconds : seconds ⟨u.ticks + 1⟩ = .ok (u.ticks + 1) := by
    apply seconds_eq
    show (u.ticks + 1).toNat * _ < _
    rw [ha.toNat_next]
    exact ha.cycles_lt
  have hmessage : Asks SparesTimer (do
      let s ← Program.ofExcept (seconds ⟨u.ticks + 1⟩)
      return "tick " ++ toString s.toNat ++ " s, next compare " ++ toString target.toNat) := by
    rw [hseconds]
    exact .done _
  rw [account, tick_eq ha.ticks_lt]
  show Safe _ _ (logged ((report .debug .firmwareTrap _).bind fun _ =>
    .done (⟨u.ticks + 1⟩ : Uptime))) _ _
  rw [logged_bind]
  exact (safe_logged ha hlimit (asks_report hmessage) h).bind_done fun _ t ht => ⟨rfl, ht⟩

/-- **A trap of the timer counts one tick and stays on time.** The next one is armed for
no earlier than a period after this trap. -/
theorem safe_timerTrap (hcount : u.ticks.toNat = n) (hroom : limit + tickPeriod.toNat < 2 ^ 64)
    (hdue : compare.toNat ≤ since) (hcause : m.trapContext.cause = timerCause)
    (h : Ticking (some u) compare since limit m) :
    Safe RunningBoard.platform (OnTime n) (logged trapEntry) m fun _ t =>
      ∃ v target, Armed n v target since ∧
        (v = ⟨u.ticks + 1⟩ ∧ since + tickPeriod.toNat ≤ target.toNat) ∧
        Ticking (some v) target since limit t := by
  refine safe_trapEntry (Q := fun v target => v = ⟨u.ticks + 1⟩ ∧
    since + tickPeriod.toNat ≤ target.toNat) ha hlimit
    (TrapContext.isInterrupt_timer hcause) h fun s hs => ?_
  refine safe_onInterrupt (safe_route_timer ha hlimit hroom hdue hcause hs) fun routed t ht => ?_
  obtain ⟨target, rfl, htarget, ht⟩ := ht
  have hle : compare ≤ target := by
    rw [UInt64.le_iff_toNat_le]
    omega
  refine (safe_account_timer (ha.mono hle) hlimit ht).mono (fun _ => id) fun v w hw => ?_
  obtain ⟨rfl, hw⟩ := hw
  exact ⟨target, ha.next hcount hdue htarget, ⟨rfl, htarget⟩, hw⟩

/-! ## A trap of an external channel -/

/-- A channel is acknowledged, or given up if that is refused; no tick either way. -/
theorem safe_route_channel (hchannel : IsChannel ctx.cause)
    (h : Ticking (some u) compare since limit m) :
    Safe RunningBoard.platform (OnTime n) (logged (router.route ctx)) m fun routed t =>
      (∀ target, routed ≠ .tick target) ∧ Ticking (some u) compare since limit t := by
  obtain ⟨channel, htrap, -⟩ := TrapContext.exists_trap_channel hchannel
  have hclear : Asks SparesTimer (Interrupts.clearPending (.xirq channel)) := Asks.request trivial
  rw [Router.route, htrap]
  show Safe _ _ (logged ((Interrupts.clearPending (.xirq channel)).bind _)) _ _
  rw [logged_bind]
  refine (safe_logged ha hlimit hclear h).bind fun result s hs hticking => ?_
  cases result with
  | ok _ => exact Safe.done hs ⟨fun _ => Routed.noConfusion, hticking⟩
  | error e =>
      show Safe _ _ (logged ((report .error .router _).bind fun _ =>
        (maskAllOrReport .router).bind fun _ => .done (Routed.fatal ctx.cause))) _ _
      rw [logged_bind]
      refine (safe_logged ha hlimit (asks_report (.done _)) hticking).bind fun _ t _ ht => ?_
      rw [logged_bind]
      exact (safe_logged ha hlimit (asks_maskAllOrReport _) ht).bind_done fun _ w hw =>
        ⟨fun _ => Routed.noConfusion, hw⟩

/-- What is no tick is at most reported. -/
theorem safe_account_channel {routed : Routed} (hrouted : ∀ target, routed ≠ .tick target)
    (h : Ticking (some u) compare since limit m) :
    Safe RunningBoard.platform (OnTime n) (logged (account routed u)) m fun v t =>
      v = u ∧ Ticking (some u) compare since limit t := by
  cases routed with
  | tick target => exact absurd rfl (hrouted target)
  | external channel =>
      have hreport : Asks SparesTimer (report .info .firmwareTrap
          (pure ("external interrupt on channel " ++ toString channel.toNat))) :=
        asks_report (.done _)
      show Safe _ _ (logged ((report .info .firmwareTrap _).bind fun _ => .done u)) _ _
      rw [logged_bind]
      exact (safe_logged ha hlimit hreport h).bind_done fun _ t ht => ⟨rfl, ht⟩
  | fatal cause => exact Safe.done (ha.onTime h) ⟨rfl, h⟩

/-- **A trap of an external channel leaves ticks and timer alone.** -/
theorem safe_channelTrap (hchannel : IsChannel m.trapContext.cause)
    (h : Ticking (some u) compare since limit m) :
    Safe RunningBoard.platform (OnTime n) (logged trapEntry) m
      fun _ => Ticking (some u) compare since limit := by
  have hentry := safe_trapEntry (Q := fun v c => v = u ∧ c = compare) ha hlimit
    (TrapContext.isInterrupt_channel hchannel) h fun s hs => by
      refine safe_onInterrupt (safe_route_channel ha hlimit hchannel hs) fun routed t ht => ?_
      refine (safe_account_channel ha hlimit ht.1 ht.2).mono (fun _ => id) fun v w hw => ?_
      obtain ⟨rfl, hw⟩ := hw
      exact ⟨compare, ha, ⟨rfl, rfl⟩, hw⟩
  refine hentry.mono (fun _ => id) fun _ t ht => ?_
  obtain ⟨_, _, -, ⟨rfl, rfl⟩, ht⟩ := ht
  exact ht

end Trap

end BoardSupport.Firmware
