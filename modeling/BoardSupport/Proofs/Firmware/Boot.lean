import BoardSupport.Proofs.Csr.Sections
import BoardSupport.Proofs.Firmware.TrapPath
import BoardSupport.Proofs.Program.Exchanges

/-!
# No interrupt before the firmware is ready

From reset on no line is enabled in `mie` and the global enable is clear (`Quiet`). The
boot prints, logs and waits for as long as its devices make it, and every critical
section on the way finds interrupts disabled and leaves them so: quiet states are only
followed by quiet states, until the timer is started and the handler is installed
(`Prepared`). Only then the timer's line is enabled, and after it all interrupts
(`interrupts_wait_for_boot`).
-/

namespace BoardSupport

open Program

/-! ## What the timer is told -/

/-- The values written to the registers of a block, by their offsets, oldest first. -/
def storesTo (b : Block) (trace : List Exchange) : List (Nat × UInt32) :=
  trace.filterMap fun e => match e.request with
    | .store b' offset value => if b' = b then some (offset, value) else none
    | _ => none

theorem storesTo_append (b : Block) (before rest : List Exchange) :
    storesTo b (before ++ rest) = storesTo b before ++ storesTo b rest :=
  List.filterMap_append

theorem Block.behaves_write (b : Block) (offset : Nat) (value : UInt32) :
    Behaves (b.write offset value) (fun _ => True) fun _ trace =>
      storesTo b trace = [(offset, value)] :=
  Behaves.request trivial fun _ => by simp [storesTo]

namespace Timer

variable (t : Timer) (value : UInt64)

/-- How the counter is set: its lower half stands at zero while the upper one changes. -/
def timeStores : List (Nat × UInt32) :=
  [(Register.timeLow.offset, 0), (Register.timeHigh.offset, highHalf value),
    (Register.timeLow.offset, lowHalf value)]

/-- How the compare value is set: its lower half stands at all ones while the upper one
changes. -/
def compareStores : List (Nat × UInt32) :=
  [(Register.compareLow.offset, 0xFFFFFFFF), (Register.compareHigh.offset, highHalf value),
    (Register.compareLow.offset, lowHalf value)]

theorem behaves_setTime : Behaves (t.setTime value) (fun _ => True) fun _ trace =>
    storesTo t.block trace = timeStores value := by
  refine (t.block.behaves_write _ _).andThen fun _ _ h₁ =>
    (t.block.behaves_write _ _).andThen fun _ _ h₂ =>
      (t.block.behaves_write _ _).ends fun _ _ h₃ => ?_
  rw [storesTo_append, storesTo_append, h₁, h₂, h₃]
  rfl

theorem behaves_setCompare : Behaves (t.setCompare value) (fun _ => True) fun _ trace =>
    storesTo t.block trace = compareStores value := by
  refine (t.block.behaves_write _ _).andThen fun _ _ h₁ =>
    (t.block.behaves_write _ _).andThen fun _ _ h₂ =>
      (t.block.behaves_write _ _).ends fun _ _ h₃ => ?_
  rw [storesTo_append, storesTo_append, h₁, h₂, h₃]
  rfl

end Timer

variable {δ α β : Type} {bus : Bus δ} {m m' : Machine δ} {s t : Recorded (Machine δ)}
  {stores : List (Nat × UInt32)}

/-! ## Quiet states -/

/-- No interrupt can be taken, and none is allowed by its line. -/
structure Machine.Quiet (m : Machine δ) : Prop where
  unrefused : m.Unrefused
  lines : m.csrs.file.get .mie = 0
  disabled : m.interruptsEnabled = false

namespace Firmware

open Session (logged)

/-- The request enables no interrupt and does not touch the timer. -/
def Calm : Request → Prop
  | .store b _ _ => b ≠ timer.block
  | .updateCsr c op => c = .mstatus ∧ op = .clearBits Csr.interruptEnable
  | _ => True

theorem Quiet.masked (h : m.Quiet) : m.masked = m := Interrupts.masked_eq_self h.disabled

theorem Quiet.afterCsrRead (h : m.Quiet) (c : Csr) : (m.afterCsrRead c).Quiet := by
  unfold Machine.afterCsrRead
  split
  · refine ⟨h.unrefused, ?_, ?_⟩
    · exact (m.get_setCsr_of_ne _ (by decide)).trans h.lines
    · show (m.setCsr .cycle _).interruptsEnabled = false
      rw [Machine.interruptsEnabled, Machine.get_setCsr_of_ne _ _ (by decide)]
      exact h.disabled
  · exact h

/-- Whatever the devices answer, a quiet state stays quiet if the only update is masking. -/
theorem Quiet.answered (h : m.Quiet) {r : Request}
    (hr : ∀ c op, r = .updateCsr c op → c = .mstatus ∧ op = .clearBits Csr.interruptEnable)
    {v : r.Reply} (hstep : Machine.platform bus r m = .returned v m') : m'.Quiet := by
  cases r with
  | load b offset =>
      obtain ⟨d, -, rfl⟩ := Machine.exists_of_platform_load hstep
      exact ⟨h.unrefused, h.lines, h.disabled⟩
  | store b offset value =>
      obtain ⟨d, -, rfl⟩ := Machine.exists_of_platform_store hstep
      exact ⟨h.unrefused, h.lines, h.disabled⟩
  | readCsr c =>
      cases hstep
      exact Quiet.afterCsrRead h c
  | updateCsr c op =>
      obtain ⟨rfl, rfl⟩ := hr c op rfl
      rw [Machine.platform_updateCsr (h.unrefused.refusal rfl)] at hstep
      cases hstep
      have hmasked : m.masked.Quiet := by
        rw [Quiet.masked h]
        exact h
      exact hmasked
  | waitForInterrupt => cases hstep
  | _ =>
      cases hstep
      exact ⟨h.unrefused, h.lines, h.disabled⟩

/-- A quiet state, in which the timer was given these values. -/
structure Waiting (stores : List (Nat × UInt32)) (s : Recorded (Machine δ)) : Prop where
  quiet : s.inner.Quiet
  stores : storesTo timer.block s.trace.toList = stores

theorem Waiting.answered (h : Waiting stores s) {r : Request} (hr : Calm r) {v : r.Reply}
    (hstep : (Machine.platform bus).recorded r s = .returned v t) : Waiting stores t := by
  cases hp : Machine.platform bus r s.inner with
  | stopped c inner =>
      rw [Platform.recorded_stopped hp] at hstep
      cases hstep
  | returned w inner =>
      rw [Platform.recorded_apply hp] at hstep
      cases hstep
      refine ⟨Quiet.answered h.quiet (fun c op hop => by subst hop; exact hr) hp, ?_⟩
      rw [Array.toList_push, storesTo_append, h.stores]
      cases r with
      | store b offset value => simp [storesTo, show b ≠ timer.block from hr]
      | _ => simp [storesTo]

/-- From a quiet state the program passes through quiet states only, and the timer is left
alone. -/
def KeepsQuiet (bus : Bus δ) (x : Program α) : Prop :=
  ∀ stores (s : Recorded (Machine δ)), Waiting stores s →
    Throughout (Machine.platform bus).recorded x s (Waiting stores)

namespace KeepsQuiet

theorem bind {x : Program α} {f : α → Program β} (hx : KeepsQuiet bus x)
    (hf : ∀ v, KeepsQuiet bus (f v)) : KeepsQuiet bus (x.bind f) := fun stores s hs =>
  (hx stores s hs).bind fun v t hv => hf v stores t ((hx stores s hs).finish hv)

theorem done (v : α) : KeepsQuiet bus (.done v) := fun _ _ hs => .done hs

theorem of_asks {x : Program α} (hx : Asks Calm x) : KeepsQuiet bus x := fun _ _ hs =>
  hx.throughout (fun _ _ _ _ hr hs hstep => Waiting.answered hs hr hstep) hs

/-- A critical section finds interrupts disabled and does not enable them. -/
theorem criticalSection {body : Program α} (hbody : KeepsQuiet bus body) :
    KeepsQuiet bus (Interrupts.criticalSection body) := by
  intro stores s hs
  have hmask : Asks Calm Interrupts.disable := by
    refine (Asks.request trivial).bind fun _ => (Asks.request ⟨rfl, rfl⟩).bind fun result => ?_
    cases result with
    | ok _ => exact .done _
    | error e => exact .done _
  obtain ⟨u, hu, -, -⟩ := Interrupts.exists_returns_mask bus (hs.quiet.unrefused.refusal rfl)
  rw [hs.quiet.disabled] at hu
  rw [Interrupts.criticalSection_eq]
  refine (of_asks hmask stores s hs).bind fun result t ht => ?_
  obtain ⟨rfl, rfl⟩ := ht.unique hu
  have hstart := (of_asks hmask stores s hs).finish hu
  exact (hbody stores _ hstart).bind fun v w hw => .done ((hbody stores _ hstart).finish hw)

theorem calm_of_at {r : Request} (h : r.At console.block) : Calm r := by
  cases r with
  | store b offset value =>
      obtain rfl : b = console.block := h
      show console.block ≠ timer.block
      decide
  | load b offset => trivial
  | _ => exact h.elim

theorem withConsole {use : Uart → Program α} (h : Asks (Request.At console.block) (use console)) :
    KeepsQuiet bus (withConsole use) := by
  refine (criticalSection (of_asks (h.mono fun _ => calm_of_at))).bind fun result => ?_
  cases result with
  | ok v => exact .done _
  | error e => exact .done _

theorem print (text : String) : KeepsQuiet bus (print text) :=
  (withConsole ((console.asks_writeBlock _).mono fun _ => Request.Sends.at)).bind fun _ =>
    .done ()

/-- Logging prints. -/
theorem logged {x : Program α} (hx : Asks Calm x) : KeepsQuiet bus (logged x) := fun stores _ hs =>
  hx.throughout_withLogger (fun _ _ _ _ hr hs hstep => Waiting.answered hs hr hstep)
    (fun _ t ht => print _ stores t ht) hs

theorem logged_bind {x : Program α} {f : α → Program β} (hx : KeepsQuiet bus (Session.logged x))
    (hf : ∀ v, KeepsQuiet bus (Session.logged (f v))) :
    KeepsQuiet bus (Session.logged (x.bind f)) := by
  rw [Firmware.logged_bind]
  exact hx.bind hf

theorem logged_print (text : String) : KeepsQuiet bus (Session.logged (Firmware.print text)) := by
  rw [logged_eq (asks_print text)]
  exact print text

theorem logged_printLine (text : String) :
    KeepsQuiet bus (Session.logged (printLine text)) :=
  logged_bind (logged_print text) fun _ => logged_print lineEnd

theorem logged_initConsole (config : Uart.Config) :
    KeepsQuiet bus (Session.logged (initConsole config)) := by
  refine logged_bind ?_ fun _ => logged (Asks.request trivial)
  rw [logged_eq (asks_withConsole ((asks_setUp config).mono fun _ => Request.At.within))]
  exact withConsole (asks_setUp config)

/-- The seed is drawn and reported with the timer left alone. -/
theorem logged_reportSeed {trng : Trng} (h : trng.block ≠ timer.block) :
    KeepsQuiet bus (Session.logged (reportSeed trng)) := by
  have hwrite (value : UInt32) : Asks Calm (trng.writeControl value) := Asks.request h
  have hread : Asks Calm trng.readControl := Asks.request trivial
  have hbyte : Asks Calm trng.getByte := Asks.poll (hread.bind fun _ => .done _)
  have hbytes : ∀ count, Asks Calm (trng.getBytes count) := by
    intro count
    induction count with
    | zero => exact .done _
    | succ count ih => exact hbyte.bind fun _ => ih.bind fun _ => .done _
  refine logged ?_
  refine Asks.bind ((hwrite _).bind fun _ => Asks.bind (Asks.request trivial) fun _ =>
    (hwrite _).bind fun _ => Asks.request trivial) fun _ => ?_
  refine (hbytes 4).bind fun seed => ?_
  refine (Asks.report trivial (fun _ => trivial) ?_).bind fun _ => hwrite _
  exact (hread.bind fun _ => .done _).bind fun _ => .done _

end KeepsQuiet

/-! ## The stages of the boot -/

/-- The boot up to the start of the timer. -/
def announce : Program Unit := do
  let start ← Csr.cycle.read
  pins.setOutputEnable gpioOutputs
  pins.write 0xAA
  initConsole consoleConfig
  print lineEnd
  printLine "Hello World!"
  let now ← Csr.cycle.read
  printLine (bootReport (now - start))
  match MemoryMap.target.trng with
  | some block => reportSeed ⟨block⟩
  | none => pure ()

theorem boot_eq : boot = announce.bind fun _ => startTimer.bind fun _ => install {} := by
  simp only [boot, announce, bind_eq, bind_assoc]
  rfl

theorem keepsQuiet_announce (bus : Bus δ) : KeepsQuiet bus (logged announce) := by
  have hpins : pins.block ≠ timer.block := by decide
  refine .logged_bind (.logged (Asks.request trivial)) fun start => ?_
  refine .logged_bind (.logged (Asks.request hpins)) fun _ => ?_
  refine .logged_bind (.logged (Asks.request hpins)) fun _ => ?_
  refine .logged_bind (.logged_initConsole _) fun _ => ?_
  refine .logged_bind (.logged_print _) fun _ => ?_
  refine .logged_bind (.logged_printLine _) fun _ => ?_
  refine .logged_bind (.logged (Asks.request trivial)) fun now => ?_
  refine .logged_bind (.logged_printLine _) fun _ => ?_
  exact .logged_reportSeed (by decide)

/-- What the timer was told once it is started. -/
def timerStarted : List (Nat × UInt32) := Timer.timeStores 0 ++ Timer.compareStores tickPeriod

theorem behaves_startTimer : Behaves startTimer (fun _ => True) fun _ trace =>
    storesTo timer.block trace = timerStarted := by
  refine (timer.behaves_setTime 0).andThen fun _ _ h₁ =>
    (timer.behaves_setCompare tickPeriod).ends fun _ _ h₂ => ?_
  rw [storesTo_append, h₁, h₂, timerStarted]

theorem asks_startTimer : Asks (Request.At timer.block) startTimer :=
  (Timer.asks_setTime (fun _ _ => rfl) 0).bind fun _ => Timer.asks_setCompare (fun _ _ => rfl) _

theorem logged_startTimer : logged startTimer = startTimer :=
  logged_eq (asks_startTimer.mono fun _ => Request.At.within)

/-- Starting the timer enables no interrupt. -/
theorem throughout_startTimer (hs : s.inner.Quiet) :
    Throughout (Machine.platform bus).recorded startTimer s fun t => t.inner.Quiet := by
  refine asks_startTimer.throughout (I := fun t : Recorded (Machine δ) => t.inner.Quiet)
    (fun r u v t hr hu hstep => ?_) hs
  cases hp : Machine.platform bus r u.inner with
  | stopped c inner =>
      rw [Platform.recorded_stopped hp] at hstep
      cases hstep
  | returned w inner =>
      rw [Platform.recorded_apply hp] at hstep
      cases hstep
      refine Quiet.answered hu (fun c op hop => ?_) hp
      subst hop
      exact hr.elim

theorem waiting_of_startTimer (hs : Waiting [] s)
    (h : Returns (Machine.platform bus).recorded startTimer s () t) : Waiting timerStarted t := by
  obtain ⟨trace, hans, htrace⟩ := behaves_startTimer.of_returns h
  refine ⟨(throughout_startTimer hs.quiet).finish h, ?_⟩
  rw [hans.recorded, storesTo_append, hs.stores, htrace, List.nil_append]

theorem keepsQuiet_install (uptime : Uptime) : KeepsQuiet bus (logged (install uptime)) := by
  refine .logged_bind ?_ fun result => ?_
  · rw [logged_criticalSection]
    exact .criticalSection (.of_asks (Asks.request trivial))
  · cases result with
    | ok _ => exact .done ()
    | error e => exact .logged (Asks.report trivial (fun _ => trivial) (.done _))

/-- The handler is installed, and this is noted. -/
theorem exists_returns_install (bus : Bus δ) (hs : s.inner.Quiet) (uptime : Uptime) :
    ∃ t, Returns (Machine.platform bus).recorded (logged (install uptime)) s () t ∧
      t.inner.handler = some uptime ∧
      ⟨.setHandlerSlot (some uptime), ()⟩ ∈ t.trace.toList := by
  obtain ⟨u, hu, -, -⟩ := Interrupts.exists_returns_mask bus (hs.unrefused.refusal rfl)
  rw [hs.disabled] at hu
  have hput : (Machine.platform bus).recorded (.setHandlerSlot (some uptime)) u
      = .returned () ⟨{ u.inner with handler := some uptime },
          u.trace.push ⟨.setHandlerSlot (some uptime), ()⟩⟩ := Platform.recorded_apply rfl
  refine ⟨⟨{ u.inner with handler := some uptime },
    u.trace.push ⟨.setHandlerSlot (some uptime), ()⟩⟩, ?_, rfl, ?_⟩
  · rw [install, bind_eq, logged_bind, logged_criticalSection, Interrupts.criticalSection_eq]
    refine Returns.bind (v := .ok ()) (hu.bind ?_) (returns_done.mpr ⟨rfl, rfl⟩)
    exact (returns_request hput).bind (returns_done.mpr ⟨rfl, rfl⟩)
  · rw [Array.toList_push]
    exact List.mem_append_right _ List.mem_cons_self

/-- The whole boot passes through quiet states only. -/
theorem throughout_boot (bus : Bus δ) (hs : Waiting [] s) :
    Throughout (Machine.platform bus).recorded (logged boot) s fun t => t.inner.Quiet := by
  have hannounce := keepsQuiet_announce bus [] s hs
  rw [boot_eq, logged_bind]
  refine (hannounce.mono fun _ h => h.quiet).bind fun _ t ht => ?_
  have ht := hannounce.finish ht
  rw [logged_bind, logged_startTimer]
  refine (throughout_startTimer ht.quiet).bind fun _ u hu => ?_
  have hu := waiting_of_startTimer ht hu
  exact (keepsQuiet_install {} _ u hu).mono fun _ h => h.quiet

/-- The timer has been told time zero and then the first compare value, and the handler,
with no tick, has been put in its slot. -/
structure Booted (s : Recorded (Machine δ)) : Prop where
  waiting : Waiting timerStarted s
  handler : s.inner.handler = some {}
  noted : ⟨.setHandlerSlot (some {}), ()⟩ ∈ s.trace.toList

theorem booted_of_returns (hs : Waiting [] s)
    (h : Returns (Machine.platform bus).recorded (logged boot) s () t) : Booted t := by
  rw [boot_eq, logged_bind] at h
  obtain ⟨_, u, hu, h⟩ := returns_bind.mp h
  have hu := (keepsQuiet_announce bus [] s hs).finish hu
  rw [logged_bind, logged_startTimer] at h
  obtain ⟨_, w, hw, h⟩ := returns_bind.mp h
  have hw := waiting_of_startTimer hu hw
  obtain ⟨t', ht', hhandler, hnoted⟩ := exists_returns_install bus hw.quiet {}
  obtain ⟨-, rfl⟩ := h.unique ht'
  exact ⟨(keepsQuiet_install {} _ w hw).finish h, hhandler, hnoted⟩

/-! ## The first moment with interrupts enabled -/

/-- At some point the timer had been told time zero and then the compare value, and nothing
else, and the handler had been put in its slot. -/
def Prepared (trace : List Exchange) : Prop :=
  ∃ earlier later, trace = earlier ++ later ∧ storesTo timer.block earlier = timerStarted ∧
    ⟨.setHandlerSlot (some {}), ()⟩ ∈ earlier

/-- The image after some steps from reset on the machine `m`, with all its exchanges. -/
def booting (bus : Bus δ) (m : Machine δ) (n : Nat) : Recorded (Machine δ) :=
  (advance (Machine.platform bus).recorded n (logged image) ⟨m, #[]⟩).2

/-- Interrupts are enabled after `n` steps, and were not before. -/
structure FirstEnabled (bus : Bus δ) (m : Machine δ) (n : Nat) : Prop where
  enabled : (booting bus m n).inner.interruptsEnabled = true
  before : ∀ k, k < n → (booting bus m k).inner.interruptsEnabled = false

theorem FirstEnabled.eq {n k : Nat} (hn : FirstEnabled bus m n) (hk : FirstEnabled bus m k) :
    n = k := by
  rcases Nat.lt_trichotomy n k with h | h | h
  · have := hk.before n h
    rw [hn.enabled] at this
    cases this
  · exact h
  · have := hn.before k h
    rw [hk.enabled] at this
    cases this

theorem Booted.prepared (h : Booted s) {n : Nat} {x : Program α} :
    Prepared (advance (Machine.platform bus).recorded n x s).2.trace.toList := by
  obtain ⟨_, later, -, hans⟩ := exists_path_advance (Machine.platform bus).recorded n x s
  exact ⟨s.trace.toList, later, hans.recorded, h.waiting.stores, h.noted⟩

section Enabling

variable {next : Except DriverError Unit → Program α}

/-- First the timer's line is enabled. -/
theorem step_enableTick (bus : Bus δ) (hs : s.inner.Unrefused) :
    step (Machine.platform bus).recorded (logged (enableTick.bind next)) s
      = (logged (Interrupts.enable.bind next),
          ⟨s.inner.setCsr .mie (s.inner.csrs.file.get .mie ||| Irq.machineTimer.mask),
            s.trace.push ⟨.updateCsr .mie (.setBits Irq.machineTimer.mask), .ok ()⟩⟩) := by
  have hline := Platform.recorded_apply (@Machine.platform_updateCsr δ bus s.inner
    .mie (hs.refusal rfl) (.setBits Irq.machineTimer.mask))
  show step _ (.ask (.updateCsr .mie (.setBits Irq.machineTimer.mask)) _) s = _
  rw [step, hline]
  rfl

/-- Then all interrupts. -/
theorem step_enable (bus : Bus δ) (hs : s.inner.Unrefused) :
    step (Machine.platform bus).recorded (logged (Interrupts.enable.bind next)) s
      = (logged (next (.ok ())),
          ⟨s.inner.setCsr .mstatus (s.inner.csrs.file.get .mstatus ||| Csr.interruptEnable),
            s.trace.push ⟨.updateCsr .mstatus (.setBits Csr.interruptEnable), .ok ()⟩⟩) := by
  have henable := Platform.recorded_apply (@Machine.platform_updateCsr δ bus s.inner
    .mstatus (hs.refusal rfl) (.setBits Csr.interruptEnable))
  show step _ (.ask (.updateCsr .mstatus (.setBits Csr.interruptEnable)) _) s = _
  rw [step, henable]
  rfl

end Enabling

/-- The line alone enables nothing. -/
theorem Quiet.lineEnabled (h : m.Quiet) (value : UInt32) :
    (m.setCsr .mie value).interruptsEnabled = false := by
  rw [Machine.interruptsEnabled, Machine.get_setCsr_of_ne _ _ (by decide)]
  exact h.disabled

/-- The image goes through its boot, and if that comes to an end, through what follows. -/
theorem booting_cases (bus : Bus δ) (hm : Waiting [] (⟨m, #[]⟩ : Recorded (Machine δ))) :
    ((∀ n, (booting bus m n).inner.Quiet) ∧
      ¬ ∃ t, Returns (Machine.platform bus).recorded (logged boot) ⟨m, #[]⟩ () t) ∨
    ∃ (k : Nat) (t : Recorded (Machine δ)) (next : Except DriverError Unit → Program Empty),
      Booted t ∧ (∀ n, n ≤ k → (booting bus m n).inner.Quiet) ∧
      ∀ i, booting bus m (k + i)
        = (advance (Machine.platform bus).recorded i (logged (enableTick.bind next)) t).2 := by
  obtain ⟨next, himage⟩ : ∃ next, image = boot.bind fun _ => enableTick.bind next := ⟨_, rfl⟩
  have hboot := throughout_boot bus hm
  unfold booting
  rw [himage, logged_bind]
  by_cases hdone : ∃ t, Returns (Machine.platform bus).recorded (logged boot) ⟨m, #[]⟩ () t
  · obtain ⟨t, ht⟩ := hdone
    obtain ⟨_, hn⟩ := ht.exists_advance
    obtain ⟨k, hk, hsteps⟩ := exists_advance_bind_until hn
    refine Or.inr ⟨k, t, next, booted_of_returns hm ht, fun n hn => ?_, fun i => ?_⟩
    · rw [hsteps n hn]
      exact hboot n
    · rw [advance_add, hsteps k (Nat.le_refl k), hk]
      rfl
  · refine Or.inl ⟨fun n => ?_, hdone⟩
    rcases advance_bind n (logged boot) _ _ with h | ⟨k, _, t, -, hk, -⟩
    · rw [h]
      exact hboot n
    · exact absurd ⟨t, returns_of_advance hk⟩ hdone

section Enabled

variable {k : Nat} {t : Recorded (Machine δ)} {next : Except DriverError Unit → Program Empty}

/-- After the boot there are two steps: the line is enabled, and then all interrupts. -/
theorem booting_enables (bus : Bus δ) (ht : Booted t)
    (hafter : ∀ i, booting bus m (k + i)
      = (advance (Machine.platform bus).recorded i (logged (enableTick.bind next)) t).2) :
    (booting bus m (k + 1)).inner = t.inner.setCsr .mie Irq.machineTimer.mask ∧
    (booting bus m (k + 2)).inner = (t.inner.setCsr .mie Irq.machineTimer.mask).setCsr .mstatus
      ((t.inner.setCsr .mie Irq.machineTimer.mask).csrs.file.get .mstatus
        ||| Csr.interruptEnable) := by
  have hquiet := ht.waiting.quiet
  constructor
  · rw [hafter, advance, step_enableTick bus hquiet.unrefused, hquiet.lines, UInt32.zero_or]
    rfl
  · rw [hafter, advance, advance, step_enableTick bus hquiet.unrefused, hquiet.lines,
      UInt32.zero_or,
      step_enable (s := ⟨t.inner.setCsr .mie _, t.trace.push _⟩) bus hquiet.unrefused]
    rfl

/-- The second of them is the first moment that the global enable is set. -/
theorem firstEnabled_of_booted (bus : Bus δ) (ht : Booted t)
    (hquiet : ∀ n, n ≤ k → (booting bus m n).inner.Quiet)
    (hafter : ∀ i, booting bus m (k + i)
      = (advance (Machine.platform bus).recorded i (logged (enableTick.bind next)) t).2) :
    FirstEnabled bus m (k + 2) := by
  obtain ⟨hline, henable⟩ := booting_enables bus ht hafter
  refine ⟨?_, fun n hn => ?_⟩
  · rw [henable]
    exact Machine.interruptsEnabled_setEnable _ _
  · rcases Nat.lt_or_ge k n with hkn | hnk
    · obtain rfl : n = k + 1 := by omega
      rw [hline]
      exact Quiet.lineEnabled ht.waiting.quiet _
    · exact (hquiet n hnk).disabled

end Enabled

/-- **No interrupt before the firmware is ready.** From a reset with `mstatus` and `mie`
zero, whatever the devices held and answer: at every step `mie` and the global enable are
zero, or the handler has been installed and the timer has been told time zero and then the
first compare value. At the first moment that the global enable is set, exactly the
timer's line is enabled, and the installed handler has counted no tick. If the boot comes
to its end, there is such a moment. -/
theorem interrupts_wait_for_boot (bus : Bus δ) (m : Machine δ) (hrefused : m.Unrefused)
    (hstatus : m.csrs.file.get .mstatus = 0) (hmie : m.csrs.file.get .mie = 0) :
    (∀ n, (booting bus m n).inner.csrs.file.get .mie = 0 ∧
        (booting bus m n).inner.interruptsEnabled = false ∨
      Prepared (booting bus m n).trace.toList) ∧
    (∀ n, FirstEnabled bus m n →
      (booting bus m n).inner.csrs.file.get .mie = (1 : UInt32) <<< 7 ∧
      (booting bus m n).inner.handler = some {} ∧
      Prepared (booting bus m n).trace.toList) ∧
    ((∃ t, Returns (Machine.platform bus).recorded (logged boot) ⟨m, #[]⟩ () t) →
      ∃ n, FirstEnabled bus m n) := by
  have hdisabled : m.interruptsEnabled = false := by
    rw [Machine.interruptsEnabled, hstatus]
    decide
  have hm : Waiting [] (⟨m, #[]⟩ : Recorded (Machine δ)) := ⟨⟨hrefused, hmie, hdisabled⟩, rfl⟩
  rcases booting_cases bus hm with ⟨hquiet, hno⟩ | ⟨k, t, next, ht, hquiet, hafter⟩
  · refine ⟨fun n => Or.inl ⟨(hquiet n).lines, (hquiet n).disabled⟩, fun n hn => ?_,
      fun h => absurd h hno⟩
    have := hn.enabled
    rw [(hquiet n).disabled] at this
    cases this
  · have hfirst := firstEnabled_of_booted bus ht hquiet hafter
    have hprepared (i : Nat) : Prepared (booting bus m (k + i)).trace.toList := by
      rw [hafter]
      exact ht.prepared
    refine ⟨fun n => ?_, fun n hn => ?_, fun _ => ⟨k + 2, hfirst⟩⟩
    · rcases Nat.le_total n k with hnk | hkn
      · exact Or.inl ⟨(hquiet n hnk).lines, (hquiet n hnk).disabled⟩
      · obtain ⟨i, rfl⟩ := Nat.exists_eq_add_of_le hkn
        exact Or.inr (hprepared i)
    · obtain rfl : n = k + 2 := hn.eq hfirst
      have henable := (booting_enables bus ht hafter).2
      refine ⟨?_, ?_, hprepared 2⟩
      · rw [henable, Machine.get_setCsr_of_ne _ _ (by decide), Machine.get_setCsr_self]
        rfl
      · rw [henable]
        exact ht.handler

/-- A board whose timer is long past its compare value, with that interrupt pending: the
firmware boots, and has told the timer before it lets the interrupt in. -/
theorem interrupts_wait_for_boot_stale_timer :
    let m : Machine Board := Machine.setCsr
      { device := { timer := { time := 9, compare := 4 }, trng := { simulated := true } } } .mip 0x80
    m.Unrefused ∧ m.csrs.file.get .mstatus = 0 ∧ m.csrs.file.get .mie = 0 ∧
    ∃ n, FirstEnabled Board.bus m n ∧
      (booting Board.bus m n).inner.csrs.file.get .mie = (1 : UInt32) <<< 7 ∧
      Prepared (booting Board.bus m n).trace.toList := by
  intro m
  have hboot : ∃ t, Returns (Machine.platform Board.bus).recorded (logged boot) ⟨m, #[]⟩ () t := by
    have hreturned : (match (logged boot).run (Machine.platform Board.bus).recorded 2 ⟨m, #[]⟩ with
        | .returned _ _ => true
        | .stopped _ _ => false) = true := by decide +kernel
    cases hrun : (logged boot).run (Machine.platform Board.bus).recorded 2 ⟨m, #[]⟩ with
    | returned _ t => exact ⟨t, 2, hrun⟩
    | stopped c t =>
        rw [hrun] at hreturned
        cases hreturned
  obtain ⟨-, hfirst, hexists⟩ := interrupts_wait_for_boot Board.bus m rfl rfl rfl
  obtain ⟨n, hn⟩ := hexists hboot
  exact ⟨rfl, rfl, rfl, n, hn, (hfirst n hn).1, (hfirst n hn).2.2⟩

end Firmware

end BoardSupport
