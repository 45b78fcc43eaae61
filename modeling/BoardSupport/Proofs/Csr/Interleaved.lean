import BoardSupport.Proofs.Csr.Stages

/-!
# Calls with traps in between

A call makes its exchanges one after another, and wherever interrupts are enabled a trap
may be taken in between (`Happens`). The handler of a trap may do anything, but it
leaves alone where hardware keeps the enable, so the call goes on with interrupts
enabled.

What a stage says of the interrupt enable is true of the machine (`Stage.Agrees`): every
exchange that is allowed keeps it so, and a trap is taken at stages only where nothing is
masked. So a guarded resource is used with interrupts disabled (`Happens.disabled`), and
accesses that follow each other in the call do so on the bus (`Happens.exists_stretch`).
-/

namespace BoardSupport

open Program Stage

variable {δ : Type} {bus : Bus δ} {b : Block} {m m' left base : Machine δ}
  {st mid : Stage} {e : Exchange}

/-! ## What happens during a call -/

/-- Something that happens during a call, on the machine `m`. -/
inductive Event (δ : Type)
  /-- The call makes an exchange. -/
  | own (m : Machine δ) (e : Exchange)
  /-- A trap is taken, handled with these exchanges, and returned from to `resumed`. -/
  | trap (m : Machine δ) (exchanges : List Exchange) (resumed : Machine δ)

namespace Event

def exchanges : Event δ → List Exchange
  | .own _ e => [e]
  | .trap _ exchanges _ => exchanges

/-- The exchange that the call itself makes. -/
def own? : Event δ → Option Exchange
  | .own _ e => some e
  | .trap _ _ _ => none

end Event

/-- The exchanges of the call itself. -/
def ownTrace (events : List (Event δ)) : List Exchange := events.filterMap Event.own?

@[simp] theorem ownTrace_own (m : Machine δ) (e : Exchange) (rest : List (Event δ)) :
    ownTrace (.own m e :: rest) = e :: ownTrace rest := rfl

@[simp] theorem ownTrace_trap (m resumed : Machine δ) (exchanges : List Exchange)
    (rest : List (Event δ)) : ownTrace (.trap m exchanges resumed :: rest) = ownTrace rest := rfl

theorem ownTrace_append (before rest : List (Event δ)) :
    ownTrace (before ++ rest) = ownTrace before ++ ownTrace rest := List.filterMap_append

theorem mem_ownTrace {events : List (Event δ)} :
    e ∈ ownTrace events ↔ ∃ m, .own m e ∈ events := by
  rw [ownTrace, List.mem_filterMap]
  constructor
  · rintro ⟨event, hmem, hown⟩
    cases event with
    | own m e' =>
        cases hown
        exact ⟨m, hmem⟩
    | trap m exchanges resumed => cases hown
  · rintro ⟨m, hmem⟩
    exact ⟨.own m e, hmem, rfl⟩

/-- Without traps the exchanges are those of the call. -/
theorem flatMap_exchanges {events : List (Event δ)}
    (h : ∀ event ∈ events, ∃ m e, event = .own m e ∧ m.interruptsEnabled = false) :
    events.flatMap Event.exchanges = ownTrace events := by
  induction events with
  | nil => rfl
  | cons event events ih =>
      obtain ⟨m, e, rfl, -⟩ := h _ List.mem_cons_self
      rw [List.flatMap_cons, ih fun event hevent => h event (List.mem_cons_of_mem _ hevent)]
      rfl

/-- The events take the machine `m` to `left`. A trap is taken only while interrupts are
enabled; its handler may exchange anything, and leaves the place alone where hardware
keeps the enable. -/
inductive Happens (bus : Bus δ) : List (Event δ) → Machine δ → Machine δ → Prop
  | nil (m : Machine δ) : Happens bus [] m m
  | own {m m' left : Machine δ} {e : Exchange} {rest : List (Event δ)}
      (h : Machine.platform bus e.request m = .returned e.reply m')
      (hrest : Happens bus rest m' left) : Happens bus (.own m e :: rest) m left
  | trap {m handled left : Machine δ} {exchanges : List Exchange} {rest : List (Event δ)}
      (ctx : TrapContext) (pending : UInt32) (henabled : m.interruptsEnabled = true)
      (h : Answered (Machine.platform bus) exchanges (m.takeTrap ctx pending) handled)
      (hkept : (handled.csrs.file.get .mstatus &&& Csr.previousEnable != 0) = true)
      (hrest : Happens bus rest handled.returnFromTrap left) :
      Happens bus (.trap m exchanges handled.returnFromTrap :: rest) m left

theorem happens_append {before rest : List (Event δ)} :
    Happens bus (before ++ rest) m left ↔
      ∃ mid, Happens bus before m mid ∧ Happens bus rest mid left := by
  constructor
  · intro h
    induction before generalizing m with
    | nil => exact ⟨m, .nil m, h⟩
    | cons event before ih =>
        cases h with
        | own h hrest =>
            obtain ⟨mid, hbefore, hrest⟩ := ih hrest
            exact ⟨mid, .own h hbefore, hrest⟩
        | trap ctx pending henabled h hkept hrest =>
            obtain ⟨mid, hbefore, hrest⟩ := ih hrest
            exact ⟨mid, .trap ctx pending henabled h hkept hbefore, hrest⟩
  · rintro ⟨mid, hbefore, hrest⟩
    induction hbefore with
    | nil _ => exact hrest
    | own h _ ih => exact .own h (ih hrest)
    | trap ctx pending henabled h hkept _ ih => exact .trap ctx pending henabled h hkept (ih hrest)

/-- The return from a trap gives the enable back. -/
theorem Machine.interruptsEnabled_returnFromTrap
    (h : (m.csrs.file.get .mstatus &&& Csr.previousEnable != 0) = true) :
    m.returnFromTrap.interruptsEnabled = true := by
  simp only [returnFromTrap, h, if_true]
  exact interruptsEnabled_setEnable _ _

/-! ## Stages on the machine -/

theorem Machine.interruptsEnabled_congr (h : m.csrs = m'.csrs) :
    m.interruptsEnabled = m'.interruptsEnabled := by
  rw [interruptsEnabled, h, interruptsEnabled]

theorem Machine.setCsr_csrs_congr (h : m.csrs = m'.csrs) (csr : Csr) (value : UInt32) :
    (m.setCsr csr value).csrs = (m'.setCsr csr value).csrs := by
  rw [setCsr, setCsr, h]

theorem Machine.masked_csrs_congr (h : m.csrs = m'.csrs) : m.masked.csrs = m'.masked.csrs := by
  rw [masked, masked, h]
  exact setCsr_csrs_congr h _ _

namespace Stage

/-- The CSRs are those of `base`, with interrupts masked inside a section. -/
def Agrees (base m : Machine δ) : Stage → Prop
  | .outside => m.csrs = base.csrs
  | .noticed enabled => m.csrs = base.csrs ∧ enabled = base.interruptsEnabled
  | .inside enabled _ => m.csrs = base.masked.csrs ∧ enabled = base.interruptsEnabled ∧
    base.csrs.refusal .mstatus = none

theorem Agrees.congr (h : st.Agrees base m) (hm : m'.csrs = m.csrs) : st.Agrees base m' := by
  cases st with
  | outside => exact hm.trans h
  | noticed enabled => exact ⟨hm.trans h.1, h.2⟩
  | inside enabled polled => exact ⟨hm.trans h.1, h.2⟩

theorem Agrees.resting (h : st.Agrees base m) (hst : st.Resting) : m.csrs = base.csrs := by
  cases st with
  | outside => exact h
  | noticed enabled => exact hst.elim
  | inside enabled polled =>
      obtain ⟨hm, henabled, -⟩ := h
      obtain rfl : enabled = false := hst
      rw [hm, Interrupts.masked_eq_self henabled.symm]

theorem Agrees.disabled {enabled polled : Bool} (h : (inside enabled polled).Agrees base m) :
    m.interruptsEnabled = false := by
  rw [Machine.interruptsEnabled_congr h.1]
  exact base.interruptsEnabled_masked

/-- An allowed exchange leaves the machine as its stage says. -/
theorem Agrees.own (h : st.Agrees base m) (hstep : Step b st e mid)
    (hans : Machine.platform bus e.request m = .returned e.reply m') : mid.Agrees base m' := by
  cases hstep with
  | askFilter filter _ =>
      cases hans
      exact h
  | setFilter filter _ =>
      cases hans
      exact h.congr rfl
  | notice status hst =>
      cases hans
      have hcsrs := h.resting hst
      exact ⟨hcsrs, Machine.interruptsEnabled_congr hcsrs⟩
  | mask enabled =>
      obtain ⟨hcsrs, henabled⟩ := h
      cases hr : m.csrs.refusal .mstatus with
      | none =>
          rw [Machine.platform_updateCsr hr] at hans
          cases hans
          exact ⟨Machine.masked_csrs_congr hcsrs, henabled, hcsrs ▸ hr⟩
      | some e =>
          rw [Machine.platform_updateCsr_refused hr] at hans
          cases hans
  | refuse enabled e =>
      cases hr : m.csrs.refusal .mstatus with
      | none =>
          rw [Machine.platform_updateCsr hr] at hans
          cases hans
      | some e =>
          rw [Machine.platform_updateCsr_refused hr] at hans
          cases hans
          exact h.1
  | @use r enabled polled v hr _ =>
      refine h.congr ?_
      cases r with
      | load b offset =>
          obtain ⟨d, -, rfl⟩ := Machine.exists_of_platform_load hans
          rfl
      | store b offset value =>
          obtain ⟨d, -, rfl⟩ := Machine.exists_of_platform_store hans
          rfl
      | handlerSlot =>
          cases hans
          rfl
      | setHandlerSlot slot =>
          cases hans
          rfl
      | _ => exact hr.elim
  | poll enabled word =>
      obtain ⟨d, -, rfl⟩ := Machine.exists_of_platform_load hans
      exact h
  | restore polled result =>
      obtain ⟨hcsrs, henabled, hr⟩ := h
      have hrm : m.csrs.refusal .mstatus = none := by
        rw [hcsrs]
        exact hr
      rw [Machine.platform_updateCsr hrm] at hans
      cases hans
      have hstatus : m.csrs.file.get .mstatus
          = base.csrs.file.get .mstatus &&& ~~~Csr.interruptEnable := by
        rw [hcsrs]
        exact base.get_setCsr_self .mstatus _
      show (m.setCsr .mstatus (m.csrs.file.get .mstatus ||| Csr.interruptEnable)).csrs = base.csrs
      rw [hstatus, Interrupts.or_and_not_interruptEnable henabled.symm,
        Machine.setCsr_csrs_congr hcsrs]
      exact congrArg Machine.csrs
        ((base.setCsr_setCsr .mstatus _ _).trans (base.setCsr_get .mstatus))

/-- The interrupt enable, where it can still be set. -/
theorem Agrees.enabled (h : st.Agrees base m) (hm : m.interruptsEnabled = true) :
    m.csrs = base.csrs ∧ ¬ st.Holding := by
  cases st with
  | outside => exact ⟨h, id⟩
  | noticed enabled => exact ⟨h.1, id⟩
  | inside enabled polled =>
      rw [h.disabled] at hm
      cases hm

/-- The call goes on from a trap as if it had begun there. -/
theorem Agrees.trap (h : st.Agrees base m) (hm : m.interruptsEnabled = true)
    (hm' : m'.interruptsEnabled = true) : st.Agrees m' m' := by
  cases st with
  | outside => rfl
  | noticed enabled =>
      obtain ⟨hcsrs, rfl⟩ := h
      exact ⟨rfl, (Machine.interruptsEnabled_congr hcsrs).symm.trans (hm.trans hm'.symm)⟩
  | inside enabled polled => exact absurd trivial (h.enabled hm).2

end Stage

/-! ## A call as a whole -/

/-- The traps leave alone what `view` shows of the CSRs. -/
def Spared {β : Type} (view : CsrUnit → β) (events : List (Event δ)) : Prop :=
  ∀ m exchanges resumed, .trap m exchanges resumed ∈ events → view resumed.csrs = view m.csrs

theorem Spared.tail {β : Type} {view : CsrUnit → β} {event : Event δ} {events : List (Event δ)}
    (h : Spared view (event :: events)) : Spared view events :=
  fun m exchanges resumed hmem => h m exchanges resumed (List.mem_cons_of_mem _ hmem)

namespace Happens

variable {events : List (Event δ)} {head body tail : List Exchange}

/-- After allowed exchanges and any traps, the machine is as the stage says, for CSRs with
the enable of the start and with all else that the traps spared. -/
theorem agrees (h : Happens bus events m left) (hf : Follows b st (ownTrace events) mid)
    (ha : st.Agrees base m) :
    ∃ base' : Machine δ, mid.Agrees base' left ∧
      base'.interruptsEnabled = base.interruptsEnabled ∧
      ∀ (β : Type) (view : CsrUnit → β), Spared view events → view base'.csrs = view base.csrs := by
  induction h generalizing st base with
  | nil m =>
      cases hf
      exact ⟨base, ha, rfl, fun _ _ _ => rfl⟩
  | own hans _ ih =>
      cases hf with
      | cons hstep hf =>
          obtain ⟨base', hleft, henabled, hview⟩ := ih hf (ha.own hstep hans)
          exact ⟨base', hleft, henabled, fun β view hspared => hview β view hspared.tail⟩
  | trap ctx pending hm _ hkept _ ih =>
      have hresumed := Machine.interruptsEnabled_returnFromTrap hkept
      have hcsrs := (ha.enabled hm).1
      obtain ⟨base', hleft, henabled, hview⟩ := ih hf (ha.trap hm hresumed)
      refine ⟨base', hleft, ?_, fun β view hspared => ?_⟩
      · rw [henabled, hresumed, ← Machine.interruptsEnabled_congr hcsrs, hm]
      · rw [hview β view hspared.tail, hspared _ _ _ List.mem_cons_self, hcsrs]

/-- Every exchange of the call is made on a machine as its stage says. -/
theorem agrees_of_mem (h : Happens bus events m left) (hf : Follows b st (ownTrace events) mid)
    (ha : st.Agrees base m) (hmem : .own m' e ∈ events) :
    ∃ (base' : Machine δ) (st₁ st₂ : Stage), st₁.Agrees base' m' ∧
      base'.interruptsEnabled = base.interruptsEnabled ∧ Step b st₁ e st₂ := by
  obtain ⟨before, after, rfl⟩ := List.append_of_mem hmem
  obtain ⟨m₁, hbefore, hrest⟩ := happens_append.mp h
  rw [ownTrace_append, ownTrace_own] at hf
  obtain ⟨st₁, hf₁, hf₂⟩ := follows_append.mp hf
  obtain ⟨base', ha', henabled, -⟩ := hbefore.agrees hf₁ ha
  cases hrest with
  | own _ _ =>
      cases hf₂ with
      | cons hstep _ => exact ⟨base', st₁, _, ha', henabled, hstep⟩

/-- What is guarded is used with interrupts disabled. -/
theorem disabled (h : Happens bus events m left) (hf : Follows b st (ownTrace events) mid)
    (ha : st.Agrees base m) (hmem : .own m' e ∈ events) (he : e.request.Guarded b) :
    m'.interruptsEnabled = false := by
  obtain ⟨base', st₁, st₂, ha', -, hstep⟩ := h.agrees_of_mem hf ha hmem
  obtain ⟨enabled, polled, rfl⟩ := hstep.inside_of_guarded he
  exact ha'.disabled

/-- Where the enable is read, it is as it was at the start. -/
theorem enabled_of_notice (h : Happens bus events m left)
    (hf : Follows b st (ownTrace events) mid) (ha : st.Agrees base m)
    (hmem : .own m' e ∈ events) (he : e.request = .readCsr .mstatus) :
    m'.interruptsEnabled = base.interruptsEnabled := by
  obtain ⟨base', st₁, st₂, ha', henabled, hstep⟩ := h.agrees_of_mem hf ha hmem
  rw [← henabled]
  cases hstep with
  | notice status hst => exact Machine.interruptsEnabled_congr (ha'.resting hst)
  | use enabled polled v hr hpoll =>
      obtain rfl : _ = Request.readCsr .mstatus := he
      exact hr.elim
  | _ => cases he

/-- Between two polls there is a time when the enable is as it was at the start. -/
theorem enabled_between_polls {before between after : List (Event δ)} {m₁ m₂ : Machine δ}
    {e₁ e₂ : Exchange}
    (h : Happens bus (before ++ .own m₁ e₁ :: (between ++ .own m₂ e₂ :: after)) m left)
    (hf : Follows b st
      (ownTrace (before ++ .own m₁ e₁ :: (between ++ .own m₂ e₂ :: after))) mid)
    (ha : st.Agrees base m) (he₁ : e₁.request = b.pollRx) (he₂ : e₂.request = b.pollRx) :
    ∃ m' e, .own m' e ∈ between ∧ m'.interruptsEnabled = base.interruptsEnabled := by
  have hsplit := hf
  rw [ownTrace_append, ownTrace_own, ownTrace_append, ownTrace_own] at hsplit
  obtain ⟨st₁, -, hrest⟩ := follows_append.mp hsplit
  cases hrest with
  | @cons _ st₂ _ _ _ hstep hrest =>
      rw [List.append_cons] at hrest
      obtain ⟨st₃, hpolls, -⟩ := follows_append.mp hrest
      obtain ⟨e, he, hnotice⟩ := hpolls.exists_notice (hstep.spent_of_poll he₁) he₂
      obtain ⟨m', hm'⟩ := mem_ownTrace.mp he
      refine ⟨m', e, hm', h.enabled_of_notice hf ha ?_ hnotice⟩
      exact List.mem_append_right _ (List.mem_cons_of_mem _ (List.mem_append_left _ hm'))

/-- A trap finds nothing held. -/
theorem not_holding_of_trap {before after : List (Event δ)} {exchanges : List Exchange}
    {resumed : Machine δ} (h : Happens bus (before ++ .trap m' exchanges resumed :: after) m left)
    (hf : Follows b st (ownTrace (before ++ .trap m' exchanges resumed :: after)) mid)
    (ha : st.Agrees base m) : ∃ now, Follows b st (ownTrace before) now ∧ ¬ now.Holding := by
  obtain ⟨m₁, hbefore, hrest⟩ := happens_append.mp h
  rw [ownTrace_append] at hf
  obtain ⟨now, hf₁, -⟩ := follows_append.mp hf
  obtain ⟨base', ha', -, -⟩ := hbefore.agrees hf₁ ha
  cases hrest with
  | trap ctx pending hm h hkept hrest => exact ⟨now, hf₁, (ha'.enabled hm).2⟩

/-! ### Accesses that follow each other -/

theorem interruptsEnabled_of_access (he : e.request.isAccess = true)
    (hans : Machine.platform bus e.request m = .returned e.reply m') :
    m'.interruptsEnabled = m.interruptsEnabled := by
  obtain ⟨r, v⟩ := e
  cases r with
  | load b offset =>
      obtain ⟨d, -, rfl⟩ := Machine.exists_of_platform_load hans
      rfl
  | store b offset value =>
      obtain ⟨d, -, rfl⟩ := Machine.exists_of_platform_store hans
      rfl
  | _ => cases he

/-- While the call makes accesses only, from a machine with interrupts disabled, no trap is
taken. -/
theorem exists_stretch_of_disabled (h : Happens bus events m left)
    (hm : m.interruptsEnabled = false) (hown : ownTrace events = body ++ tail)
    (hbody : ∀ e ∈ body, e.request.isAccess = true) :
    ∃ stretch after, events = stretch ++ after ∧ ownTrace stretch = body ∧ ownTrace after = tail ∧
      ∀ event ∈ stretch, ∃ m e, event = .own m e ∧ m.interruptsEnabled = false := by
  induction body generalizing events m with
  | nil => exact ⟨[], events, rfl, rfl, hown, fun event hevent => absurd hevent List.not_mem_nil⟩
  | cons e body ih =>
      cases h with
      | nil m => cases hown
      | trap ctx pending henabled _ _ _ =>
          rw [hm] at henabled
          cases henabled
      | @own _ m' _ _ rest hans hrest =>
          obtain ⟨rfl, hown'⟩ : _ = e ∧ ownTrace rest = body ++ tail := List.cons.inj hown
          have he := hbody _ List.mem_cons_self
          obtain ⟨stretch, after, rfl, hstretch, hafter, hall⟩ :=
            ih hrest ((interruptsEnabled_of_access he hans).trans hm) hown'
              fun e he => hbody e (List.mem_cons_of_mem _ he)
          refine ⟨.own m _ :: stretch, after, rfl, congrArg _ hstretch, hafter, ?_⟩
          intro event hevent
          rcases List.mem_cons.mp hevent with rfl | hevent
          · exact ⟨m, _, rfl, hm⟩
          · exact hall event hevent

/-- Accesses that follow each other in the call, made with interrupts disabled, do so on
the bus. -/
theorem exists_stretch (h : Happens bus events m left)
    (hown : ownTrace events = head ++ body ++ tail)
    (hbody : ∀ e ∈ body, e.request.isAccess = true)
    (hdisabled : ∀ m' e, .own m' e ∈ events → e ∈ body → m'.interruptsEnabled = false) :
    ∃ before stretch after, events = before ++ stretch ++ after ∧ ownTrace before = head ∧
      ownTrace stretch = body ∧ ownTrace after = tail ∧
      ∀ event ∈ stretch, ∃ m e, event = .own m e ∧ m.interruptsEnabled = false := by
  rw [List.append_assoc, ownTrace, List.filterMap_eq_append_iff] at hown
  obtain ⟨before, rest, rfl, hhead, hbodyTail⟩ := hown
  cases body with
  | nil =>
      exact ⟨before, [], rest, by rw [List.append_nil], hhead, rfl, hbodyTail,
        fun event hevent => absurd hevent List.not_mem_nil⟩
  | cons e body =>
      -- Traps before the first access come before the stretch.
      obtain ⟨traps, event, rest, rfl, htraps, hevent, hrest⟩ :=
        List.filterMap_eq_cons_iff.mp hbodyTail
      cases event with
      | trap m exchanges resumed => cases hevent
      | own m' e' =>
          obtain rfl : e' = e := Option.some.inj hevent
          rw [← List.append_assoc] at h hdisabled ⊢
          obtain ⟨m₁, -, h⟩ := happens_append.mp h
          have hm' := hdisabled m' e' (List.mem_append_right _ List.mem_cons_self)
            List.mem_cons_self
          have hm₁ : m₁.interruptsEnabled = false := by
            cases h with
            | own _ _ => exact hm'
          have hown : ownTrace (.own m' e' :: rest) = (e' :: body) ++ tail :=
            congrArg (e' :: ·) hrest
          obtain ⟨stretch, after, heq, hstretch, hafter, hall⟩ :=
            h.exists_stretch_of_disabled hm₁ hown hbody
          refine ⟨before ++ traps, stretch, after, ?_, ?_, hstretch, hafter, hall⟩
          · rw [heq]
            exact (List.append_assoc _ _ _).symm
          · have hnone : ownTrace traps = [] := List.filterMap_eq_nil_iff.mpr htraps
            rw [ownTrace_append, hnone, List.append_nil]
            exact hhead

end Happens

/-! ## Refusals -/

theorem Machine.refusals_of_answered {trace : List Exchange}
    (h : Answered (Machine.platform bus) trace m m') : m'.csrs.refusals = m.csrs.refusals := by
  induction h with
  | nil m => rfl
  | cons h _ ih => exact ih.trans (Machine.refusals_of_platform h)

/-- A call meets no refusal of an update that the machine does not refuse. -/
theorem Happens.not_refused {events : List (Event δ)} {c : Csr} {op : CsrUpdate}
    {error : DriverError} (h : Happens bus events m left) (hr : m.csrs.refusal c = none) :
    ⟨.updateCsr c op, .error error⟩ ∉ ownTrace events := by
  have hkeep : ∀ m m' : Machine δ, m'.csrs.refusals = m.csrs.refusals →
      m.csrs.refusal c = none → m'.csrs.refusal c = none := by
    intro m m' hm' hr
    unfold CsrUnit.refusal at hr ⊢
    rw [hm']
    exact hr
  induction h with
  | nil m => exact List.not_mem_nil
  | @own m m' _ e _ hans _ ih =>
      intro hmem
      rcases List.mem_cons.mp hmem with rfl | hmem
      · rw [Machine.platform_updateCsr hr] at hans
        cases hans
      · exact ih (hkeep _ _ (Machine.refusals_of_platform hans) hr) hmem
  | @trap m handled _ _ _ ctx pending _ hans _ _ ih =>
      have hm' : handled.csrs.refusals = (m.takeTrap ctx pending).csrs.refusals :=
        Machine.refusals_of_answered hans
      exact ih (hkeep _ _ hm' hr)

end BoardSupport
