import BoardSupport.Firmware.Session
import BoardSupport.Proofs.Firmware.Console
import BoardSupport.Proofs.Program.Stops
import BoardSupport.Proofs.Timer.Bursts
import BoardSupport.Proofs.Trap.Routing

/-!
# The firmware's trap path

A trap of the firmware goes through the dispatcher, the router and, when they ask for
it, the halt, and each of them may report what it does on the console. `Leaves` says
what such a piece leaves behind: the CSR file it names, and otherwise the machine as it
was but for the console. `Faults` says that a piece meets a fault, as the handler does at a
tick that it cannot count (`CanTick`, `faults_hook_timer`). What a hook answers and leaves is
said hook by hook, and the entry is put together around any hook
(`exists_returns_trapEntry`, `exists_stops_trapEntry`, `faults_trapEntry`).
-/

namespace BoardSupport.Firmware

open Program
open Session (logged)

variable {m m₁ m₂ : Machine Board} {file : CsrFile}

/-- The firmware's board with its hart. -/
abbrev Board.platform : Platform (Machine Board) := Machine.platform Board.bus

/-- The timer in its place on the board. -/
theorem Board.isPart_timer (board : Board) :
    IsPart TimerModel.bus Board.bus Firmware.timer.block fun timer => { board with timer } where
  load := by
    intro offset e
    have hat : BoardBlock.at? Firmware.timer.block = some .timer := by decide
    simp only [Board.bus, hat]
    cases TimerModel.bus.load Firmware.timer.block offset e with
    | ok answer => rfl
    | error c => rfl
  store := by
    intro offset value e
    have hat : BoardBlock.at? Firmware.timer.block = some .timer := by decide
    simp only [Board.bus, hat]
    cases TimerModel.bus.store Firmware.timer.block offset value e with
    | ok e' => rfl
    | error c => rfl

/-! ## Programs that log -/

theorem logged_bind {α β : Type} (x : Program α) (f : α → Program β) :
    logged (x.bind f) = (logged x).bind fun v => logged (f v) := withLogger_bind x f

/-- A driver does not log. -/
theorem logged_eq {α : Type} {b : Block} {x : Program α} (h : Asks (Request.Within b) x) :
    logged x = x := h.logger_eq printRecord

/-- A section logs what its body logs. -/
theorem logged_criticalSection {α : Type} (body : Program α) :
    logged (Interrupts.criticalSection body) = Interrupts.criticalSection (logged body) := by
  rw [Interrupts.criticalSection_eq, Interrupts.criticalSection_eq, logged_bind,
    logged_eq (Interrupts.asks_disable (b := console.block))]
  refine congrArg _ (funext fun result => ?_)
  cases result with
  | error e => rfl
  | ok enabled =>
      show logged (body.bind (Interrupts.restore enabled)) = _
      rw [logged_bind]
      refine congrArg _ (funext fun v => ?_)
      cases enabled with
      | false => rfl
      | true =>
          refine congrArg (Program.ask _) (funext fun result => ?_)
          cases result with
          | error e => rfl
          | ok u => rfl

/-! ## Faults -/

/-- The program meets a fault, and no CSR has changed by then. -/
def Faults {α : Type} (x : Program α) (m : Machine Board) : Prop :=
  ∃ c m', Stops Board.platform x m (.fault c) m' ∧ m'.csrs = m.csrs

namespace Faults

variable {α β : Type} {x : Program α} {f : α → Program β} {v : α}

theorem fault {c : Fault} : Faults (.fault c : Program α) m := ⟨c, m, Stops.fault, rfl⟩

theorem bind (h : Faults x m) : Faults (x.bind f) m := by
  obtain ⟨c, m', hstop, hcsrs⟩ := h
  exact ⟨c, m', hstop.bind, hcsrs⟩

theorem after (hx : Returns Board.platform x m v m₁) (hcsrs : m₁.csrs = m.csrs)
    (h : Faults (f v) m₁) : Faults (x.bind f) m := by
  obtain ⟨c, m', hstop, hkept⟩ := h
  exact ⟨c, m', Stops.after hx hstop, hkept.trans hcsrs⟩

theorem not_returns (h : Faults x m) : ¬ Returns Board.platform x m v m₁ := by
  obtain ⟨_, _, hstop, -⟩ := h
  exact hstop.not_returns

end Faults

theorem Leaves.csrs_eq (h : Leaves m.csrs.file m m₁) : m₁.csrs = m.csrs := by
  obtain ⟨_, _, rfl⟩ := h
  rfl

/-! ## Reports and halting -/

/-- The file with every line masked and the global enable cleared. -/
def halted (file : CsrFile) : CsrFile :=
  (file.set .mie 0).set .mstatus (file.get .mstatus &&& ~~~Csr.interruptEnable)

theorem get_halted (file : CsrFile) (c : Csr) :
    (halted file).get c = if c = .mie then 0
      else if c = .mstatus then file.get .mstatus &&& ~~~Csr.interruptEnable
      else file.get c := by
  rw [halted, CsrFile.get_set, CsrFile.get_set]
  by_cases hmie : c = .mie
  · subst hmie
    rfl
  · by_cases hstatus : c = .mstatus
    · subst hstatus
      rfl
    · rw [if_neg (Ne.symm hstatus), if_neg (Ne.symm hmie), if_neg hmie, if_neg hstatus]

theorem halted_halted (file : CsrFile) : halted (halted file) = halted file := by
  refine CsrFile.ext_get fun c => ?_
  have hand : ∀ w : UInt32, w &&& ~~~Csr.interruptEnable &&& ~~~Csr.interruptEnable
      = w &&& ~~~Csr.interruptEnable := fun w => by rw [UInt32.and_assoc, UInt32.and_self]
  simp only [get_halted, reduceCtorEq, if_false, if_true, hand]
  split
  · rfl
  · split
    · rfl
    · rfl

theorem Leaves.disabledAll (h : Leaves file m m₁) :
    Leaves (halted file) m (m₁.setCsr .mie 0).masked := by
  rw [Machine.masked, Machine.get_setCsr_of_ne _ _ (by decide), h.csrs_file]
  exact (h.setCsr .mie 0).setCsr .mstatus _

/-- A report is printed or not; either way it comes back and changes only the console. -/
theorem exists_returns_report (h : Prints m) (level : LogLevel) (target : LogTarget)
    (message : Program String)
    (hmessage : m.filter.admits level = true → ∃ text, message = .done text) :
    ∃ m', Returns Board.platform (logged (report level target message)) m () m' ∧
      Leaves m.csrs.file m m' := by
  rw [report, bind_eq, logged_bind]
  cases hheard : m.filter.admits level with
  | false =>
      refine ⟨m, Returns.bind (returns_request rfl) ?_, .refl h⟩
      rw [hheard]
      exact returns_done.mpr ⟨rfl, rfl⟩
  | true =>
      obtain ⟨text, rfl⟩ := hmessage hheard
      obtain ⟨m', hprint, hleaves⟩ := exists_returns_print h
        ((⟨level, target, text⟩ : LogRecord).line ++ lineEnd)
      refine ⟨m', Returns.bind (returns_request rfl) ?_, hleaves⟩
      rw [hheard]
      exact Returns.bind (v := ()) hprint (returns_done.mpr ⟨rfl, rfl⟩)

theorem returns_disableAll (h : Prints m) :
    Returns Board.platform (logged Interrupts.disableAll) m (.ok ()) (m.setCsr .mie 0).masked := by
  rw [logged_eq (Interrupts.asks_disableAll (b := console.block))]
  exact Interrupts.returns_disableAll h.unrefused

/-- Masking every interrupt is not refused, so nothing is said. -/
theorem returns_maskAllOrReport (h : Prints m) (target : LogTarget) :
    Returns Board.platform (logged (maskAllOrReport target)) m () (m.setCsr .mie 0).masked := by
  rw [maskAllOrReport, bind_eq, logged_bind]
  exact (returns_disableAll h).bind (returns_done.mpr ⟨rfl, rfl⟩)

/-- Parking masks every interrupt, and the hart never wakes. -/
theorem stops_parkHart {α : Type} (h : Prints m) (f : Empty → Program α) :
    Stops Board.platform (logged (parkHart.bind f)) m .parked (m.setCsr .mie 0).masked := by
  rw [parkHart, bind_eq, bind_assoc, logged_bind]
  refine Stops.after (returns_disableAll h) (Stops.loop ?_)
  have hsleep : Board.platform .waitForInterrupt (m.setCsr .mie 0).masked
      = .stopped .parked (m.setCsr .mie 0).masked := by
    show Outcome.stopped (if (m.setCsr .mie 0).masked.interruptsEnabled then Stop.idle
      else .parked) _ = _
    rw [Machine.interruptsEnabled_masked]
    rfl
  exact Stops.ask hsleep

/-! ## From the entry to the hook and back -/

/-- What comes before the hook: the context is taken, and a report made of it. -/
def announced : Program TrapContext :=
  TrapContext.capture.bind fun ctx =>
    (report .trace .trap (pure ("trap: mcause=" ++ Text.hexWord ctx.cause ++ " mepc="
      ++ Text.hexWord ctx.pc))).bind fun _ => .done ctx

/-- A dispatch is a report, the hook of the trap's kind and what finishes an exception. -/
theorem dispatch_eq {η : Type} (policy : TrapHandler η) (d : Dispatcher η) :
    Dispatcher.dispatch policy d = announced.bind fun ctx =>
      (policy.hook ctx d.handler).bind fun r =>
      (if ctx.isInterrupt = true then .done r.1 else Dispatcher.finishException ctx r.1).bind
        fun action => .done (action, ⟨r.2⟩) := by
  rw [announced, bind_assoc]
  refine congrArg (Program.bind _) (funext fun ctx => ?_)
  rw [bind_assoc]
  refine congrArg (Program.bind _) (funext fun _ => ?_)
  rw [Program.bind, TrapHandler.hook, ← TrapContext.isInterrupt_eq]
  cases ctx.isInterrupt with
  | true => rfl
  | false => rfl

/-- A trap comes to its hook with the context held at entry and at most a report behind it. -/
theorem exists_returns_announced (h : Prints m) :
    ∃ m₁, Returns Board.platform (logged announced) m m.trapContext m₁ ∧
      Leaves m.csrs.file m m₁ := by
  obtain ⟨m₁, hreport, hleaves⟩ := exists_returns_report h .trace .trap
    (pure ("trap: mcause=" ++ Text.hexWord m.trapContext.cause ++ " mepc="
      ++ Text.hexWord m.trapContext.pc)) fun _ => ⟨_, rfl⟩
  have hcapture : Returns Board.platform (logged TrapContext.capture) m m.trapContext m := ⟨0, rfl⟩
  refine ⟨m₁, ?_, hleaves⟩
  rw [announced, logged_bind]
  refine hcapture.bind ?_
  rw [logged_bind]
  exact hreport.bind (returns_done.mpr ⟨rfl, rfl⟩)

/-- After the hook the dispatcher leaves everything as the hook did, unless an exception is
resumed. -/
theorem exists_returns_dispatch (h : Prints m) {slot slot' : Option Uptime} {action : TrapAction}
    (hfinish : m.trapContext.isInterrupt = true ∨ action ≠ .resume) {Q : Machine Board → Prop}
    (hhook : ∀ m₁, Leaves m.csrs.file m m₁ → ∃ m₂,
      Returns Board.platform (logged (handler.optional.hook m.trapContext slot)) m₁
        (action, slot') m₂ ∧ Q m₂) :
    ∃ m₂, Returns Board.platform (logged (Dispatcher.dispatch handler.optional ⟨slot⟩)) m
      (action, ⟨slot'⟩) m₂ ∧ Q m₂ := by
  obtain ⟨m₁, hannounced, hleaves⟩ := exists_returns_announced h
  obtain ⟨m₂, hret, hQ⟩ := hhook m₁ hleaves
  have hsettle : Returns Board.platform (logged (if m.trapContext.isInterrupt = true
      then .done action else Dispatcher.finishException m.trapContext action)) m₂ action m₂ := by
    by_cases hkind : m.trapContext.isInterrupt = true
    · rw [if_pos hkind]
      exact returns_done.mpr ⟨rfl, rfl⟩
    · rw [if_neg hkind, Dispatcher.finishException, if_neg (hfinish.resolve_left hkind)]
      exact returns_done.mpr ⟨rfl, rfl⟩
  refine ⟨m₂, ?_, hQ⟩
  rw [dispatch_eq, logged_bind]
  refine hannounced.bind ?_
  rw [logged_bind]
  refine hret.bind ?_
  rw [logged_bind]
  exact hsettle.bind (returns_done.mpr ⟨rfl, rfl⟩)

theorem faults_dispatch (h : Prints m) {slot : Option Uptime}
    (hhook : ∀ m₁, Leaves m.csrs.file m m₁ →
      Faults (logged (handler.optional.hook m.trapContext slot)) m₁) :
    Faults (logged (Dispatcher.dispatch handler.optional ⟨slot⟩)) m := by
  obtain ⟨m₁, hannounced, hleaves⟩ := exists_returns_announced h
  rw [dispatch_eq, logged_bind]
  refine Faults.after hannounced hleaves.csrs_eq ?_
  rw [logged_bind]
  exact (hhook m₁ hleaves).bind

section Entry

variable {slot' : Option Uptime} {action : TrapAction}

/-- A trap that does not halt returns, and its handler is put back as the hook left it. -/
theorem exists_returns_trapEntry (h : Prints m)
    (hfinish : m.trapContext.isInterrupt = true ∨ action ≠ .resume) (hgo : action ≠ .halt)
    {Q : Machine Board → Prop}
    (hhook : ∀ m₁, Leaves m.csrs.file m m₁ → ∃ m₂,
      Returns Board.platform (logged (handler.optional.hook m.trapContext m.handler)) m₁
        (action, slot') m₂ ∧ Q m₂) :
    ∃ m₂, Returns Board.platform (logged trapEntry) m () { m₂ with handler := slot' } ∧ Q m₂ := by
  obtain ⟨m₂, hdispatch, hQ⟩ := exists_returns_dispatch h hfinish hhook
  refine ⟨m₂, ?_, hQ⟩
  rw [trapEntry, bind_eq, logged_bind]
  refine Returns.bind (returns_request rfl) ?_
  rw [bind_eq, logged_bind]
  refine hdispatch.bind ?_
  show Returns _ (logged ((request (.setHandlerSlot slot')).bind fun _ =>
    if action = .halt then _ else pure ())) _ _ _
  rw [if_neg hgo]
  rw [logged_bind]
  refine Returns.bind (returns_request rfl) (returns_done.mpr ⟨rfl, rfl⟩)

/-- A trap that halts does not return: the hart is parked with everything masked. -/
theorem exists_stops_trapEntry (h : Prints m) {masked : CsrFile}
    (hmasked : halted masked = halted m.csrs.file)
    (hhook : ∀ m₁, Leaves m.csrs.file m m₁ → ∃ m₂,
      Returns Board.platform (logged (handler.optional.hook m.trapContext m.handler)) m₁
        (.halt, m.handler) m₂ ∧ Leaves masked m m₂) :
    ∃ m', Stops Board.platform (logged trapEntry) m .parked m' ∧
      Leaves (halted m.csrs.file) m m' := by
  obtain ⟨m₂, hdispatch, hleaves⟩ := exists_returns_dispatch h (Or.inr (by decide)) hhook
  have hhandler : { m₂ with handler := m.handler } = m₂ := by
    obtain ⟨_, _, rfl⟩ := hleaves
    rfl
  -- The hook may have masked everything itself; the halt masks it once more.
  refine ⟨(m₂.setCsr .mie 0).masked, ?_, hmasked ▸ hleaves.disabledAll⟩
  rw [trapEntry, bind_eq, logged_bind]
  refine Stops.after (returns_request rfl) ?_
  rw [bind_eq, logged_bind]
  refine Stops.after hdispatch ?_
  show Stops _ (logged ((request (.setHandlerSlot m.handler)).bind fun _ =>
    parkHart.bind _)) _ _ _
  rw [logged_bind]
  refine Stops.after (t := m₂) (v := ()) (returns_request ?_) (stops_parkHart (hleaves.prints h) _)
  exact congrArg (Outcome.returned ()) hhandler

/-- A trap whose hook meets a fault does not return. -/
theorem faults_trapEntry (h : Prints m)
    (hhook : ∀ m₁, Leaves m.csrs.file m m₁ →
      Faults (logged (handler.optional.hook m.trapContext m.handler)) m₁) :
    Faults (logged trapEntry) m := by
  rw [trapEntry, bind_eq, logged_bind]
  refine Faults.after (returns_request rfl) rfl ?_
  rw [bind_eq, logged_bind]
  exact (faults_dispatch h hhook).bind

end Entry

/-! ## Hooks -/

section Hooks

variable {ctx : TrapContext} {u u' : Uptime} {routed : Routed}

theorem hook_interrupt (hkind : ctx.isInterrupt = true) (slot : Option Uptime) :
    handler.optional.hook ctx slot = handler.optional.onInterrupt ctx slot := by
  rw [TrapHandler.hook, ← TrapContext.isInterrupt_eq, hkind]
  rfl

theorem hook_exception (hkind : ctx.isInterrupt = false) (slot : Option Uptime) :
    handler.optional.hook ctx slot = handler.optional.onException ctx slot := by
  rw [TrapHandler.hook, ← TrapContext.isInterrupt_eq, hkind]
  rfl

/-- Exceptions follow the default, with a handler or without: they are reported, and halt. -/
theorem exists_returns_exception (h : Prints m) (hkind : ctx.isInterrupt = false)
    (slot : Option Uptime) :
    ∃ m', Returns Board.platform (logged (handler.optional.hook ctx slot)) m (.halt, slot) m' ∧
      Leaves m.csrs.file m m' := by
  obtain ⟨m', hreport, hleaves⟩ := exists_returns_report h .error .trap
    (pure (ctx.description ++ " (mcause " ++ Text.hex ctx.cause.toNat ++ ") at pc "
      ++ Text.hexWord ctx.pc ++ ", mtval " ++ Text.hexWord ctx.tval)) fun _ => ⟨_, rfl⟩
  have hdefault : Returns Board.platform (logged (defaultException ctx)) m .halt m' := by
    rw [defaultException, bind_eq, logged_bind]
    exact hreport.bind (returns_done.mpr ⟨rfl, rfl⟩)
  refine ⟨m', ?_, hleaves⟩
  rw [hook_exception hkind]
  cases slot with
  | none =>
      show Returns _ (logged ((defaultException ctx).bind fun a => .done (a, none))) _ _ _
      rw [logged_bind]
      exact hdefault.bind (returns_done.mpr ⟨rfl, rfl⟩)
  | some u =>
      show Returns _ (logged (((defaultException ctx).bind fun a => .done (a, u)).bind fun r =>
        .done (r.1, some r.2))) _ _ _
      rw [bind_assoc, logged_bind]
      exact hdefault.bind (returns_done.mpr ⟨rfl, rfl⟩)

/-! ### With a handler -/

/-- An interrupt is routed, and what it was routed to accounted for. -/
theorem logged_onInterrupt (ctx : TrapContext) (u : Uptime) :
    logged (handler.optional.onInterrupt ctx (some u)) =
      (logged (router.route ctx)).bind fun routed => (logged (account routed u)).bind fun u' =>
        .done (routed.action, some u') := by
  show logged (((router.route ctx).bind fun routed => (account routed u).bind fun u' =>
    .done (routed.action, u')).bind fun r => .done (r.1, some r.2)) = _
  rw [bind_assoc, logged_bind]
  refine congrArg (Program.bind _) (funext fun routed => ?_)
  rw [bind_assoc, logged_bind]
  rfl

theorem returns_onInterrupt
    (hroute : Returns Board.platform (logged (router.route ctx)) m routed m₁)
    (haccount : Returns Board.platform (logged (account routed u)) m₁ u' m₂) :
    Returns Board.platform (logged (handler.optional.onInterrupt ctx (some u))) m
      (routed.action, some u') m₂ := by
  rw [logged_onInterrupt]
  exact hroute.bind (haccount.bind (returns_done.mpr ⟨rfl, rfl⟩))

/-- A cause that is not served: reported, everything masked, fatal. -/
theorem exists_returns_giveUp (h : Prints m) (cause : UInt32) :
    ∃ m', Returns Board.platform (logged (Router.giveUp cause)) m (.fatal cause) m' ∧
      Leaves (halted m.csrs.file) m m' := by
  obtain ⟨m₁, hreport, hleaves⟩ := exists_returns_report h .error .router
    (pure ("unhandled interrupt, mcause " ++ Text.hexWord cause
      ++ "; masking all sources")) fun _ => ⟨_, rfl⟩
  refine ⟨_, ?_, hleaves.disabledAll⟩
  rw [Router.giveUp, bind_eq, logged_bind]
  refine hreport.bind ?_
  rw [bind_eq, logged_bind]
  exact (returns_maskAllOrReport (hleaves.prints h) .router).bind (returns_done.mpr ⟨rfl, rfl⟩)

theorem exists_returns_unserved (h : Prints m) (hkind : ctx.isInterrupt = true)
    (htimer : ctx.cause ≠ timerCause) (hchannel : ¬ IsChannel ctx.cause) (u : Uptime) :
    ∃ m', Returns Board.platform (logged (handler.optional.hook ctx (some u))) m
      (.halt, some u) m' ∧ Leaves (halted m.csrs.file) m m' := by
  obtain ⟨m', hgive, hleaves⟩ := exists_returns_giveUp h ctx.cause
  rw [← Router.route_unserved router htimer hchannel] at hgive
  rw [hook_interrupt hkind]
  exact ⟨m', returns_onInterrupt hgive (returns_done.mpr ⟨rfl, rfl⟩), hleaves⟩

/-- An external channel: acknowledged, then reported. -/
theorem exists_returns_channel (h : Prints m) (hchannel : IsChannel ctx.cause) {channel : UInt8}
    (htrap : ctx.trap = .interrupt (.xirq channel)) (u : Uptime) :
    ∃ m', Returns Board.platform (logged (handler.optional.hook ctx (some u))) m
        (.resume, some u) m' ∧
      Leaves (m.csrs.file.set .mip (m.csrs.file.get .mip &&& ~~~(Irq.xirq channel).mask)) m m' := by
  have hacked := (Leaves.refl h).setCsr .mip
    (m.csrs.file.get .mip &&& ~~~(Irq.xirq channel).mask)
  obtain ⟨m', hreport, hleaves⟩ := exists_returns_report (hacked.prints h) .info .firmwareTrap
    (pure ("external interrupt on channel " ++ toString channel.toNat))
    fun _ => ⟨_, rfl⟩
  refine ⟨m', ?_, hacked.trans hleaves⟩
  rw [hook_interrupt (TrapContext.isInterrupt_channel hchannel)]
  have hroute : Returns Board.platform (logged (router.route ctx)) m (.external channel)
      (m.setCsr .mip (m.csrs.file.get .mip &&& ~~~(Irq.xirq channel).mask)) := by
    rw [Router.route, htrap]
    show Returns _ (logged ((Interrupts.clearPending (.xirq channel)).bind _)) _ _ _
    rw [logged_bind, logged_eq (Interrupts.asks_clearPending (b := console.block) _)]
    exact (Interrupts.returns_clearPending h.unrefused _).bind (returns_done.mpr ⟨rfl, rfl⟩)
  refine returns_onInterrupt hroute ?_
  show Returns _ (logged ((report .info .firmwareTrap _).bind _)) _ _ _
  rw [logged_bind]
  exact hreport.bind (returns_done.mpr ⟨rfl, rfl⟩)

/-! ### A tick -/

/-- A tick can be counted: one more fits. A debug record of it names the uptime, so where
such records are heard the uptime in cycles has to fit as well. -/
structure CanCount (filter : LogFilter) (u : Uptime) : Prop where
  countable : u.ticks.toNat + 1 < 2 ^ 64
  reportable : filter.admits .debug = true → (u.ticks.toNat + 1) * tickPeriod.toNat < 2 ^ 64

/-- A tick can be handled: the block can count the readings of its upper half, and the
handler the tick. -/
structure CanTick (u : Uptime) (m : Machine Board) : Prop where
  readable : m.device.timer.CanRead m.device.timer.upperReads
  counts : CanCount m.filter u

theorem CanCount.toNat_next {filter : LogFilter} (h : CanCount filter u) :
    (u.ticks + 1).toNat = u.ticks.toNat + 1 :=
  toNat_add_of_lt h.countable

theorem tick_eq (h : u.ticks.toNat + 1 < 2 ^ 64) : u.tick = .ok ⟨u.ticks + 1⟩ := by
  rw [Uptime.tick, addChecked,
    if_pos (show u.ticks.toNat + (1 : UInt64).toNat < UInt64.size from h)]
  rfl

theorem tick_error (h : ¬ u.ticks.toNat + 1 < 2 ^ 64) : u.tick = .error .addOverflow := by
  rw [Uptime.tick, addChecked,
    if_neg (show ¬ u.ticks.toNat + (1 : UInt64).toNat < UInt64.size from h)]
  rfl

/-- A tick is a second, so an uptime that fits in cycles is its number of ticks. -/
theorem seconds_eq (h : u.ticks.toNat * tickPeriod.toNat < 2 ^ 64) : seconds u = .ok u.ticks := by
  have hcycles : (u.ticks * tickPeriod / clockHz.toUInt64) = u.ticks := by
    apply UInt64.toNat_inj.mp
    rw [UInt64.toNat_div, UInt64.toNat_mul, Nat.mod_eq_of_lt h]
    exact Nat.mul_div_cancel _ (by decide)
  rw [seconds, Uptime.seconds, mulChecked,
    if_pos (show u.ticks.toNat * tickPeriod.toNat < UInt64.size from h)]
  show (if clockHz = 0 then .error .divideByZero
    else (.ok (u.ticks * tickPeriod / clockHz.toUInt64) : Except Fault UInt64)) = _
  rw [if_neg (by decide), hcycles]

theorem seconds_error (h : ¬ u.ticks.toNat * tickPeriod.toNat < 2 ^ 64) :
    seconds u = .error .multiplyOverflow := by
  rw [seconds, Uptime.seconds, mulChecked,
    if_neg (show ¬ u.ticks.toNat * tickPeriod.toNat < UInt64.size from h)]
  rfl

/-- The timer is rearmed one period after the moment that its reading gives. -/
theorem exists_returns_route_timer (hcause : ctx.cause = timerCause)
    (h : m.device.timer.CanRead m.device.timer.upperReads) :
    ∃ d : TimerModel, d.compare = m.device.timer.instant + tickPeriod ∧
      Returns Board.platform (logged (router.route ctx)) m
        (.tick (m.device.timer.instant + tickPeriod))
        { m with device := { m.device with timer := d } } := by
  have halone := Timer.returns_scheduleIn_instant (m := { m with device := m.device.timer })
    timer h tickPeriod
  have hschedule := (Board.isPart_timer m.device).returns
    (Timer.asks_scheduleIn (fun _ => rfl) (fun _ _ => rfl) _) halone
  refine ⟨Timer.updated 0xFFFFFFFF m.device.timer.afterReading
    (m.device.timer.instant + tickPeriod), ?_, ?_⟩
  · rw [Timer.updated_eq, TimerModel.compare_putCompare]
  · rw [Router.route, TrapContext.trap_timer hcause]
    show Returns _ (logged ((timer.scheduleIn tickPeriod).bind _)) _ _ _
    rw [logged_bind,
      logged_eq (b := timer.block) (Timer.asks_scheduleIn (fun _ => rfl) (fun _ _ => rfl) _)]
    exact hschedule.bind (returns_done.mpr ⟨rfl, rfl⟩)

/-- Where the counter cannot be read, a tick is not routed. -/
theorem faults_route_timer (hcause : ctx.cause = timerCause)
    (h : ¬ m.device.timer.CanRead m.device.timer.upperReads) :
    Faults (logged (router.route ctx)) m := by
  obtain ⟨d, hstop⟩ := Timer.exists_stops_time timer (m := { m with device := m.device.timer }) h
  have hboard := (Board.isPart_timer m.device).stops (Timer.asks_time fun _ => rfl) hstop
  rw [Router.route, TrapContext.trap_timer hcause]
  show Faults (logged ((timer.time.bind _).bind _)) m
  rw [logged_bind, logged_bind, logged_eq (b := timer.block) (Timer.asks_time fun _ => rfl)]
  exact Faults.bind (Faults.bind ⟨_, _, hboard, rfl⟩)

/-- The tick is counted, and at most reported. What the timer holds does not matter. -/
theorem exists_returns_account (h : Prints m) (hcount : CanCount m.filter u) (target : UInt64) :
    ∃ m₂, Returns Board.platform (logged (account (.tick target) u)) m ⟨u.ticks + 1⟩ m₂ ∧
      Leaves m.csrs.file m m₂ := by
  obtain ⟨m₂, hreport, hleaves⟩ := exists_returns_report h .debug .firmwareTrap (do
      let s ← Program.ofExcept (seconds ⟨u.ticks + 1⟩)
      return "tick " ++ toString s.toNat ++ " s, next compare " ++ toString target.toNat)
    fun hheard => by
      have hfits := hcount.reportable hheard
      rw [← hcount.toNat_next] at hfits
      rw [seconds_eq (u := ⟨u.ticks + 1⟩) hfits]
      exact ⟨_, rfl⟩
  refine ⟨m₂, ?_, hleaves⟩
  rw [account, tick_eq hcount.countable]
  show Returns _ (logged ((report .debug .firmwareTrap _).bind _)) _ _ _
  rw [logged_bind]
  exact hreport.bind (returns_done.mpr ⟨rfl, rfl⟩)

/-- A tick that does not fit is a fault, in the count or in the record of it. -/
theorem faults_account (hcount : ¬ CanCount m.filter u) (target : UInt64) :
    Faults (logged (account (.tick target) u)) m := by
  by_cases hfits : u.ticks.toNat + 1 < 2 ^ 64
  · have hrecord : ¬ (m.filter.admits .debug = true →
        (u.ticks.toNat + 1) * tickPeriod.toNat < 2 ^ 64) := fun hrecord => hcount ⟨hfits, hrecord⟩
    obtain ⟨hheard, hlong⟩ := Classical.not_imp.mp hrecord
    have hnext : (u.ticks + 1).toNat = u.ticks.toNat + 1 := toNat_add_of_lt hfits
    rw [← hnext] at hlong
    rw [account, tick_eq hfits]
    show Faults (logged ((report .debug .firmwareTrap _).bind _)) m
    rw [logged_bind]
    refine Faults.bind ?_
    rw [report, bind_eq, logged_bind]
    refine Faults.after (returns_request rfl) rfl ?_
    rw [hheard, seconds_error (u := ⟨u.ticks + 1⟩) hlong]
    exact Faults.fault
  · rw [account, tick_error hfits]
    exact Faults.fault

/-- A timer tick: the timer is rearmed one period after the counter that is read, and the
tick is counted. What was printed before does not matter. -/
theorem exists_returns_tick (h : Prints m) (hcause : ctx.cause = timerCause) (htick : CanTick u m) :
    ∃ now mid, Returns Board.platform timer.time m now mid ∧
      ∀ m₁, Leaves m.csrs.file m m₁ → ∃ m',
        Returns Board.platform (logged (handler.optional.hook ctx (some u))) m₁
          (.resume, some ⟨u.ticks + 1⟩) m' ∧
        m'.csrs = m.csrs ∧ m'.device.timer.compare = now + tickPeriod := by
  have htime := Timer.returns_time_instant (m := { m with device := m.device.timer }) timer
    htick.readable
  refine ⟨m.device.timer.instant, _,
    (Board.isPart_timer m.device).returns (Timer.asks_time fun _ => rfl) htime, ?_⟩
  rintro m₁ ⟨uart, hdrains, rfl⟩
  obtain ⟨d, hcompare, hroute⟩ := exists_returns_route_timer
    (m := { m with device := { m.device with uart } }) hcause htick.readable
  have hprints : Prints { m with device := { m.device with uart, timer := d } } :=
    ⟨h.unrefused, hdrains⟩
  obtain ⟨m', haccount, hleaves⟩ := exists_returns_account hprints htick.counts
    (m.device.timer.instant + tickPeriod)
  refine ⟨m', ?_, ?_⟩
  · rw [hook_interrupt (TrapContext.isInterrupt_timer hcause)]
    exact returns_onInterrupt hroute haccount
  · obtain ⟨_, _, rfl⟩ := hleaves
    exact ⟨rfl, hcompare⟩

/-- A tick that cannot be handled: the handler meets a fault, whatever was printed before. -/
theorem faults_hook_timer (hcause : ctx.cause = timerCause) (htick : ¬ CanTick u m)
    (hleaves : Leaves m.csrs.file m m₁) :
    Faults (logged (handler.optional.hook ctx (some u))) m₁ := by
  obtain ⟨uart, -, rfl⟩ := hleaves
  rw [hook_interrupt (TrapContext.isInterrupt_timer hcause), logged_onInterrupt]
  by_cases hread : m.device.timer.CanRead m.device.timer.upperReads
  · obtain ⟨d, -, hroute⟩ := exists_returns_route_timer
      (m := { m with device := { m.device with uart } }) hcause hread
    have hcount : ¬ CanCount m.filter u := fun hcount => htick ⟨hread, hcount⟩
    have haccount := faults_account (m := { m with device := { m.device with uart, timer := d } })
      hcount (m.device.timer.instant + tickPeriod)
    exact Faults.after hroute rfl haccount.bind
  · exact (faults_route_timer (m := { m with device := { m.device with uart } }) hcause hread).bind

/-! ### Without a handler -/

/-- A line is acknowledged along with all others. -/
theorem returns_line_empty (h : Prints m) (hline : IsLine ctx.cause) :
    Returns Board.platform (logged (handler.optional.hook ctx none)) m (.resume, none)
      (m.setCsr .mip 0) := by
  have hkind := TrapContext.isInterrupt_of_isLine hline
  have hacked : ∀ f : Except DriverError Unit → Program TrapAction, f (.ok ()) = .done .resume →
      Returns Board.platform (logged (Interrupts.clearAllPending.bind f)) m .resume
        (m.setCsr .mip 0) := by
    intro f hf
    rw [logged_bind, logged_eq (Interrupts.asks_clearAllPending (b := console.block))]
    refine (Interrupts.returns_clearAllPending h.unrefused).bind ?_
    rw [hf]
    exact returns_done.mpr ⟨rfl, rfl⟩
  have hdefault : Returns Board.platform (logged (defaultInterrupt ctx)) m .resume
      (m.setCsr .mip 0) := by
    rcases TrapContext.trap_cases hkind with
      ⟨-, ht⟩ | ⟨-, ht⟩ | ⟨-, ht⟩ | ⟨-, channel, ht⟩ | ⟨hno, -⟩
    · rw [defaultInterrupt, ht]
      exact hacked _ rfl
    · rw [defaultInterrupt, ht]
      exact hacked _ rfl
    · rw [defaultInterrupt, ht]
      exact hacked _ rfl
    · rw [defaultInterrupt, ht]
      exact hacked _ rfl
    · exact absurd hline hno
  rw [hook_interrupt hkind]
  show Returns _ (logged ((defaultInterrupt ctx).bind fun a => .done (a, none))) _ _ _
  rw [logged_bind]
  exact hdefault.bind (returns_done.mpr ⟨rfl, rfl⟩)

/-- A code that belongs to no line: reported, everything masked, halted. -/
theorem exists_returns_unknown_empty (h : Prints m) (hkind : ctx.isInterrupt = true)
    (hline : ¬ IsLine ctx.cause) :
    ∃ m', Returns Board.platform (logged (handler.optional.hook ctx none)) m (.halt, none) m' ∧
      Leaves (halted m.csrs.file) m m' := by
  obtain ⟨code, ht⟩ : ∃ code, ctx.trap = .interrupt (.unknown code) := by
    rcases TrapContext.trap_cases hkind with ⟨hc, -⟩ | ⟨hc, -⟩ | ⟨hc, -⟩ | ⟨hc, -⟩ | ⟨-, ht⟩
    · exact absurd (Or.inl hc) hline
    · exact absurd (Or.inr (Or.inl hc)) hline
    · exact absurd (Or.inr (Or.inr (Or.inl hc))) hline
    · exact absurd (Or.inr (Or.inr (Or.inr hc))) hline
    · exact ht
  obtain ⟨m₁, hreport, hleaves⟩ := exists_returns_report h .error .trap
    (pure ("unknown interrupt " ++ Text.hex code.toNat ++ " at pc "
      ++ Text.hexWord ctx.pc)) fun _ => ⟨_, rfl⟩
  refine ⟨_, ?_, hleaves.disabledAll⟩
  rw [hook_interrupt hkind]
  show Returns _ (logged ((defaultInterrupt ctx).bind fun a => .done (a, none))) _ _ _
  rw [defaultInterrupt, ht]
  show Returns _ (logged (((report .error .trap (pure ("unknown interrupt " ++ Text.hex code.toNat
    ++ " at pc " ++ Text.hexWord ctx.pc))).bind fun _ => (maskAllOrReport .trap).bind fun _ =>
      (.done .halt : Program TrapAction)).bind fun a => .done (a, none))) _ _ _
  rw [bind_assoc, logged_bind]
  refine hreport.bind ?_
  rw [bind_assoc, logged_bind]
  exact (returns_maskAllOrReport (hleaves.prints h) .trap).bind (returns_done.mpr ⟨rfl, rfl⟩)

end Hooks

end BoardSupport.Firmware
