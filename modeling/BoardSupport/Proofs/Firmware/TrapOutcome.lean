import BoardSupport.Proofs.Firmware.TrapPath

/-!
# What comes of a trap

A trap of the firmware ends in one of three ways: a tick is counted (`Ticks`), pending
lines are acknowledged (`Acknowledges`), or the hart is parked (`Parks`). Which one it is
follows from the cause and from whether a handler is installed, whatever the CSRs and the
timer hold (`trapOutcome`); only a tick for which a count has run out is a fault instead, and
just then (`CanTick`, `timerTrap_faults`). Over any sequence of traps the handler's uptime
has one tick for each trap of the timer (`trapHistory_outcome`).
-/

namespace BoardSupport.Firmware

open Program
open Session (logged)

variable {m m₁ m₂ : Machine Board}

/-! ## Traps by their cause -/

/-- The trap entry returns with one more tick counted and the timer rearmed one period
after the counter that is read; no CSR has changed. -/
def Ticks (u : Uptime) (m : Machine Board) : Prop :=
  ∃ now mid m' u', Returns Board.platform timer.time m now mid ∧
    Returns Board.platform (logged trapEntry) m () m' ∧
    m'.handler = some u' ∧ u'.ticks.toNat = u.ticks.toNat + 1 ∧
    m'.device.timer.compare = now + tickPeriod ∧ m'.csrs = m.csrs

/-- The trap entry returns with some bits of `mip` cleared; no other CSR bit, nor the timer
or the uptime, has changed. -/
def Acknowledges (cleared : Nat → Prop) (m : Machine Board) : Prop :=
  ∃ m', Returns Board.platform (logged trapEntry) m () m' ∧
    m'.handler = m.handler ∧ m'.device.timer = m.device.timer ∧
    (∀ i, bitAt (m'.csrs.file.get .mip) i = true ↔
      bitAt (m.csrs.file.get .mip) i = true ∧ ¬ cleared i) ∧
    ∀ c, c ≠ .mip → m'.csrs.file.get c = m.csrs.file.get c

/-- The trap entry never returns: the hart is parked, with every line masked and the global
enable cleared; no other CSR bit, nor the timer or the uptime, has changed. -/
def Parks (m : Machine Board) : Prop :=
  ∃ m', Stops Board.platform (logged trapEntry) m .parked m' ∧
    m'.handler = m.handler ∧ m'.device.timer = m.device.timer ∧
    m'.csrs.file.get .mie = 0 ∧
    (∀ i, bitAt (m'.csrs.file.get .mstatus) i = true ↔
      bitAt (m.csrs.file.get .mstatus) i = true ∧ i ≠ 3) ∧
    ∀ c, c ≠ .mie → c ≠ .mstatus → m'.csrs.file.get c = m.csrs.file.get c

/-- The outcome with a handler installed, by the cause. A tick that cannot be handled is a
fault. -/
structure Handled (u : Uptime) (m : Machine Board) : Prop where
  timer : m.trapContext.cause = timerCause → CanTick u m → Ticks u m
  overflow : m.trapContext.cause = timerCause → ¬ CanTick u m → Faults (logged trapEntry) m
  channel : IsChannel m.trapContext.cause →
    Acknowledges (fun i => i = 16 + m.trapContext.cause.toNat % 16) m
  other : m.trapContext.cause ≠ timerCause → ¬ IsChannel m.trapContext.cause → Parks m

/-- The outcome before a handler is installed, by the cause. -/
structure Defaulted (m : Machine Board) : Prop where
  line : IsLine m.trapContext.cause → Acknowledges (fun _ => True) m
  other : ¬ IsLine m.trapContext.cause → Parks m

/-- What comes of the trap that the CSRs describe. -/
def TrapOutcome (m : Machine Board) : Prop :=
  match m.handler with
  | some u => Handled u m
  | none => Defaulted m

theorem acknowledges_of_leaves {m' : Machine Board} {cleared : Nat → Prop} (pending : UInt32)
    (hret : Returns Board.platform (logged trapEntry) m () m')
    (hpending : ∀ i, bitAt pending i = true ↔ bitAt (m.csrs.file.get .mip) i = true ∧ ¬ cleared i)
    (hleaves : Leaves (m.csrs.file.set .mip pending) m m') : Acknowledges cleared m := by
  obtain ⟨uart, -, rfl⟩ := hleaves
  refine ⟨_, hret, rfl, rfl, ?_, fun c hc => CsrFile.get_set_of_ne _ _ (Ne.symm hc)⟩
  show ∀ i, bitAt ((m.csrs.file.set .mip pending).get .mip) i = true ↔ _
  rw [CsrFile.get_set_self]
  exact hpending

theorem parks_of_leaves {m' : Machine Board}
    (hstop : Stops Board.platform (logged trapEntry) m .parked m')
    (hleaves : Leaves (halted m.csrs.file) m m') : Parks m := by
  obtain ⟨uart, -, rfl⟩ := hleaves
  refine ⟨_, hstop, rfl, rfl, ?_, fun i => ?_, fun c hmie hstatus => ?_⟩
  · exact get_halted _ _
  · show bitAt ((halted m.csrs.file).get .mstatus) i = true ↔ _
    rw [get_halted, if_neg (by decide), if_pos rfl, bitAt_and_not, Csr.interruptEnable_eq,
      Field.bitAt_bit_mask, Bool.and_eq_true, Bool.not_eq_true', decide_eq_false_iff_not]
  · show (halted m.csrs.file).get c = _
    rw [get_halted, if_neg hmie, if_neg hstatus]

/-- An exception parks the hart, with a handler or without: the dispatcher leaves the CSRs
alone and only the halt masks. -/
theorem parks_of_exception (h : Prints m) (hkind : m.trapContext.isInterrupt = false) :
    Parks m := by
  obtain ⟨m', hstop, hleaves⟩ := exists_stops_trapEntry h rfl fun m₁ hm₁ => by
    obtain ⟨m₂, hhook, hm₂⟩ := exists_returns_exception (hm₁.prints h) hkind m.handler
    rw [hm₁.csrs_file] at hm₂
    exact ⟨m₂, hhook, hm₁.trans hm₂⟩
  exact parks_of_leaves hstop hleaves

/-- An interrupt that masks everything on its own parks the hart as well. -/
theorem parks_of_unserved (h : Prints m)
    (hhook : ∀ m₁, Prints m₁ → ∃ m₂,
      Returns Board.platform (logged (handler.optional.hook m.trapContext m.handler)) m₁
        (.halt, m.handler) m₂ ∧ Leaves (halted m₁.csrs.file) m₁ m₂) : Parks m := by
  obtain ⟨m', hstop, hleaves⟩ := exists_stops_trapEntry h (halted_halted _) fun m₁ hm₁ => by
    obtain ⟨m₂, hret, hm₂⟩ := hhook m₁ (hm₁.prints h)
    rw [hm₁.csrs_file] at hm₂
    exact ⟨m₂, hret, hm₁.trans hm₂⟩
  exact parks_of_leaves hstop hleaves

theorem ticks_of_timer {u : Uptime} (h : Prints m) (hslot : m.handler = some u)
    (htick : CanTick u m) (hcause : m.trapContext.cause = timerCause) : Ticks u m := by
  obtain ⟨now, mid, htime, hhook⟩ := exists_returns_tick h hcause htick
  rw [← hslot] at hhook
  obtain ⟨m₂, hret, hcsrs, hcompare⟩ := exists_returns_trapEntry h
    (Or.inl (TrapContext.isInterrupt_timer hcause)) TrapAction.noConfusion
    hhook
  exact ⟨now, mid, _, _, htime, hret, rfl, htick.counts.toNat_next, hcompare, hcsrs⟩

theorem faults_of_timer {u : Uptime} (h : Prints m) (hslot : m.handler = some u)
    (htick : ¬ CanTick u m) (hcause : m.trapContext.cause = timerCause) :
    Faults (logged trapEntry) m := by
  refine faults_trapEntry h fun m₁ hm₁ => ?_
  rw [hslot]
  exact faults_hook_timer hcause htick hm₁

theorem acknowledges_of_channel {u : Uptime} (h : Prints m) (hslot : m.handler = some u)
    (hchannel : IsChannel m.trapContext.cause) :
    Acknowledges (fun i => i = 16 + m.trapContext.cause.toNat % 16) m := by
  obtain ⟨channel, htrap, hline⟩ := TrapContext.exists_trap_channel hchannel
  obtain ⟨m₂, hret, hleaves⟩ := exists_returns_trapEntry h
    (Or.inl (TrapContext.isInterrupt_channel hchannel))
    TrapAction.noConfusion fun m₁ hm₁ => by
      obtain ⟨m₂, hhook, hm₂⟩ := exists_returns_channel (hm₁.prints h) hchannel htrap u
      rw [hm₁.csrs_file] at hm₂
      rw [hslot]
      exact ⟨m₂, hhook, hm₁.trans hm₂⟩
  refine acknowledges_of_leaves (m.csrs.file.get .mip &&& ~~~(Irq.xirq channel).mask) hret
    (fun i => ?_) ?_
  · rw [bitAt_and_not, hline, Bool.and_eq_true, Bool.not_eq_true', decide_eq_false_iff_not]
  · obtain ⟨uart, hdrains, rfl⟩ := hleaves
    exact ⟨uart, hdrains, by rw [← hslot]⟩

theorem handled (h : Prints m) {u : Uptime} (hslot : m.handler = some u) : Handled u m where
  timer hcause htick := ticks_of_timer h hslot htick hcause
  overflow hcause htick := faults_of_timer h hslot htick hcause
  channel hchannel := acknowledges_of_channel h hslot hchannel
  other htimer hchannel := by
    cases hkind : m.trapContext.isInterrupt with
    | false => exact parks_of_exception h hkind
    | true =>
        refine parks_of_unserved h fun m₁ hm₁ => ?_
        rw [hslot]
        exact exists_returns_unserved hm₁ hkind htimer hchannel u

theorem defaulted (h : Prints m) (hslot : m.handler = none) : Defaulted m where
  line hline := by
    have hhook : ∀ m₁, Leaves m.csrs.file m m₁ → ∃ m₂,
        Returns Board.platform (logged (handler.optional.hook m.trapContext m.handler)) m₁
          (.resume, none) m₂ ∧ Leaves (m.csrs.file.set .mip 0) m m₂ := by
      intro m₁ hm₁
      rw [hslot]
      exact ⟨_, returns_line_empty (hm₁.prints h) hline, hm₁.setCsr .mip 0⟩
    obtain ⟨m₂, hret, hleaves⟩ := exists_returns_trapEntry h
      (Or.inl (TrapContext.isInterrupt_of_isLine hline)) TrapAction.noConfusion hhook
    refine acknowledges_of_leaves 0 hret (fun i => ?_) ?_
    · simp
    · obtain ⟨uart, hdrains, rfl⟩ := hleaves
      exact ⟨uart, hdrains, by rw [← hslot]⟩
  other hline := by
    cases hkind : m.trapContext.isInterrupt with
    | false => exact parks_of_exception h hkind
    | true =>
        refine parks_of_unserved h fun m₁ hm₁ => ?_
        rw [hslot]
        exact exists_returns_unknown_empty hm₁ hkind hline

theorem trapOutcome (h : Prints m) : TrapOutcome m := by
  unfold TrapOutcome
  cases hslot : m.handler with
  | none => exact defaulted h hslot
  | some u => exact handled h hslot

/-! ## Sequences of traps -/

/-- Traps that were handled and returned from, in order, since the handler slot held
`slot`. Between two of them the hart and the board may change in any way, but for the slot;
the hardware describes the next trap there. -/
inductive TrapHistory (slot : Option Uptime) : List TrapContext → Machine Board → Prop
  | start {m : Machine Board} : m.handler = slot → TrapHistory slot [] m
  | change {traps : List TrapContext} {m : Machine Board} (m' : Machine Board) :
      TrapHistory slot traps m → m'.handler = m.handler → TrapHistory slot traps m'
  | trap {traps : List TrapContext} {m m' : Machine Board} :
      TrapHistory slot traps m → Prints m →
      Returns Board.platform (logged trapEntry) m () m' →
      TrapHistory slot (traps ++ [m.trapContext]) m'

/-- The slot after some traps: one tick more for each of the timer's. -/
def slotAfter (slot : Option Uptime) (traps : List TrapContext) : Option Uptime :=
  slot.map fun u => ⟨u.ticks + UInt64.ofNat (traps.countP fun ctx => ctx.cause = timerCause)⟩

/-- One tick more, by number, is one tick more. -/
theorem eq_next {u u' : Uptime} (h : u'.ticks.toNat = u.ticks.toNat + 1) :
    u' = ⟨u.ticks + 1⟩ := by
  have hfits : u.ticks.toNat + (1 : UInt64).toNat < 2 ^ 64 := h ▸ u'.ticks.toNat_lt
  obtain ⟨ticks⟩ := u'
  exact congrArg Uptime.mk (UInt64.toNat_inj.mp (h.trans (toNat_add_of_lt hfits).symm))

theorem slotAfter_nil (slot : Option Uptime) : slotAfter slot [] = slot := by
  cases slot with
  | none => rfl
  | some u =>
      show some (⟨u.ticks + 0⟩ : Uptime) = _
      rw [UInt64.add_zero]

theorem slotAfter_timer {slot : Option Uptime} {traps : List TrapContext} {ctx : TrapContext}
    (h : ctx.cause = timerCause) :
    slotAfter slot (traps ++ [ctx]) = (slotAfter slot traps).map fun u => ⟨u.ticks + 1⟩ := by
  cases slot with
  | none => rfl
  | some u =>
      simp only [slotAfter, Option.map_some, List.countP_append, List.countP_singleton, h,
        decide_true, if_true, UInt64.ofNat_add, UInt64.add_assoc]
      rfl

theorem slotAfter_other {slot : Option Uptime} {traps : List TrapContext} {ctx : TrapContext}
    (h : ctx.cause ≠ timerCause) : slotAfter slot (traps ++ [ctx]) = slotAfter slot traps := by
  simp only [slotAfter, List.countP_append, List.countP_singleton, h, decide_false,
    Bool.false_eq_true, if_false, Nat.add_zero]

/-- A trap that was returned from has counted a tick if it was the timer's. -/
theorem handler_of_returns {m' : Machine Board} {slot : Option Uptime} {traps : List TrapContext}
    (h : TrapOutcome m) (hslot : m.handler = slotAfter slot traps)
    (hret : Returns Board.platform (logged trapEntry) m () m') :
    m'.handler = slotAfter slot (traps ++ [m.trapContext]) := by
  have hkept : ∀ cleared, Acknowledges cleared m → m'.handler = m.handler := by
    rintro cleared ⟨m₂, hret₂, hhandler, -⟩
    rw [(hret.unique hret₂).2, hhandler]
  -- The trap was returned from, so the hart was not parked in it.
  have hback : ¬ Parks m := fun ⟨_, hstop, _⟩ => hstop.not_returns hret
  unfold TrapOutcome at h
  by_cases htimer : m.trapContext.cause = timerCause
  · rw [slotAfter_timer htimer, ← hslot]
    cases hm : m.handler with
    | none =>
        rw [hm] at h
        rw [hkept _ (h.line (Or.inr (Or.inl htimer))), hm]
        rfl
    | some u =>
        rw [hm] at h
        have htick : CanTick u m := by
          by_contra hno
          exact (h.overflow htimer hno).not_returns hret
        obtain ⟨now, mid, m₂, u', -, hret₂, hhandler, hnext, -⟩ := h.timer htimer htick
        rw [(hret.unique hret₂).2, hhandler, eq_next hnext]
        rfl
  · rw [slotAfter_other htimer, ← hslot]
    cases hm : m.handler with
    | none =>
        rw [hm] at h
        by_cases hline : IsLine m.trapContext.cause
        · rw [hkept _ (h.line hline), hm]
        · exact absurd (h.other hline) hback
    | some u =>
        rw [hm] at h
        by_cases hchannel : IsChannel m.trapContext.cause
        · rw [hkept _ (h.channel hchannel), hm]
        · exact absurd (h.other htimer hchannel) hback

theorem TrapHistory.handler_eq {slot : Option Uptime} {traps : List TrapContext}
    (h : TrapHistory slot traps m) : m.handler = slotAfter slot traps := by
  induction h with
  | start hm =>
      rw [slotAfter_nil]
      exact hm
  | change m' _ hm ih =>
      rw [hm]
      exact ih
  | trap _ hprints hret ih => exact handler_of_returns (trapOutcome hprints) ih hret

/-- **A trap is what its cause says.** With a handler a timer trap counts a tick and rearms
the timer, unless it cannot be counted, which is a fault; an external channel is acknowledged
and every other cause, an exception or an unknown interrupt, parks the hart; without one a
known line acknowledges all and the others park. However many traps came before, the
handler's uptime has one tick for each of the timer's. -/
theorem trapHistory_outcome {slot : Option Uptime} {traps : List TrapContext}
    (h : TrapHistory slot traps m) (hprints : Prints m) :
    m.handler = slotAfter slot traps ∧ TrapOutcome m :=
  ⟨h.handler_eq, trapOutcome hprints⟩

/-- A machine with a handler at this uptime, at the entry of a trap with this cause; all
lines are pending. -/
def trapped (u : Uptime) (cause : UInt32) : Machine Board :=
  Machine.takeTrap { device := { trng := { simulated := true } }, handler := some u }
    ⟨cause, 0x100, 0⟩ 0xFFFFFFFF

theorem prints_trapped (u : Uptime) (cause : UInt32) : Prints (trapped u cause) :=
  ⟨rfl, (by decide : bitAt 0 16 = false)⟩

/-- A tick, and then a trap of channel 3. -/
theorem trapHistory_outcome_channel :
    TrapHistory (some {}) [⟨timerCause, 0x100, 0⟩] (trapped ⟨1⟩ 0x80000013) ∧
    Prints (trapped ⟨1⟩ 0x80000013) ∧
    Acknowledges (fun i => i = 19) (trapped ⟨1⟩ 0x80000013) := by
  have hcan : CanTick {} (trapped {} timerCause) :=
    ⟨by decide, by decide, fun _ => by decide⟩
  obtain ⟨-, houtcome⟩ := trapHistory_outcome (m := trapped {} timerCause) (.start rfl)
    (prints_trapped _ _)
  obtain ⟨_, _, m', u', -, hret, hhandler, hnext, -⟩ := Handled.timer houtcome rfl hcan
  have hhistory := (TrapHistory.start rfl).trap (prints_trapped {} timerCause) hret
  have hlast := hhistory.change (trapped ⟨1⟩ 0x80000013) (by rw [hhandler, eq_next hnext]; rfl)
  obtain ⟨-, houtcome⟩ := trapHistory_outcome hlast (prints_trapped _ _)
  exact ⟨hlast, prints_trapped _ _, Handled.channel houtcome
    (⟨by decide, by decide⟩ : IsChannel 0x80000013)⟩

/-- Timer traps that do not return. With 576460752303 ticks counted and debug records heard,
the uptime that the record of the next one names does not fit in cycles; and a block that has
counted all the readings of its upper half that it can is not read once more. -/
theorem timerTrap_faults :
    let u : Uptime := ⟨576460752303⟩
    let late := trapped u timerCause
    let spent : Machine Board := { trapped {} timerCause with
      device := { trng := { simulated := true }, timer := { highReads := 0xFFFFFFFF } } }
    (TrapHistory (some u) [] late ∧ Prints late ∧ late.trapContext.cause = timerCause ∧
      u.ticks.toNat < 2 ^ 64 - 1 ∧ late.device.timer = {} ∧
      ∀ m', ¬ Returns Board.platform (logged trapEntry) late () m') ∧
    TrapHistory (some {}) [] spent ∧ Prints spent ∧ spent.trapContext.cause = timerCause ∧
      ∀ m', ¬ Returns Board.platform (logged trapEntry) spent () m' := by
  intro u late spent
  have hlate : Faults (logged trapEntry) late :=
    faults_of_timer (prints_trapped u timerCause) rfl
      (fun h => absurd (h.counts.reportable rfl) (by decide)) rfl
  have hprints : Prints spent := ⟨rfl, (by decide : bitAt 0 16 = false)⟩
  have hspent : Faults (logged trapEntry) spent :=
    faults_of_timer hprints rfl (fun h => absurd h.readable (by decide)) rfl
  exact ⟨⟨.start rfl, prints_trapped u timerCause, rfl, by decide, rfl,
      fun m' => hlate.not_returns⟩,
    .start rfl, hprints, rfl, fun m' => hspent.not_returns⟩

end BoardSupport.Firmware
