import BoardSupport.Proofs.Csr.Interrupts
import BoardSupport.Proofs.Trap.Dispatch

/-!
# The default policy, however it is wired

A dispatcher that was given no handler of its own still has a policy, and there are
several ways to give it none: the default hooks, a pair of default functions, an empty
slot, a slot that holds the default hooks. One policy is wired into another
(`TrapHandler.Embeds`) when the hooks of the other are its own, on a state that holds its
own; then whole dispatches are the same programs (`dispatch_embeds`), and so are any
sequences of traps (`serve_embeds`).

What the default policy does is said of every cause (`DefaultOutcome`) and then of every
sequence of traps (`DefaultRun`). No wiring can differ from it.
-/

namespace BoardSupport

open Program

variable {σ δ η η' : Type}

/-! ## Sequences of traps -/

/-- Dispatches one trap after another. Before each the state changes in any way, as the
code between the traps and the hardware have it. -/
def Dispatcher.serve (policy : TrapHandler η) (p : Platform σ) (fuel : Nat) :
    List (σ → σ) → Dispatcher η → σ → Outcome σ (List TrapAction × Dispatcher η)
  | [], d, s => .returned ([], d) s
  | before :: rest, d, s =>
    ((dispatch policy d).run p fuel (before s)).andThen fun r s =>
      (serve policy p fuel rest r.2 s).andThen fun later s => .returned (r.1 :: later.1, later.2) s

/-- The outcome of traps, seen without the handler that served them. -/
def Outcome.actions (o : Outcome σ (List TrapAction × Dispatcher η)) :
    Outcome σ (List TrapAction) :=
  o.andThen fun r s => .returned r.1 s

/-! ## One policy wired into another -/

/-- The hooks of `policy'` are those of `policy`, on a state that `f` makes of its own. -/
structure TrapHandler.Embeds (policy : TrapHandler η) (policy' : TrapHandler η')
    (f : η → η') : Prop where
  onInterrupt : ∀ ctx h, policy'.onInterrupt ctx (f h)
    = (policy.onInterrupt ctx h).bind fun r => .done (r.1, f r.2)
  onException : ∀ ctx h, policy'.onException ctx (f h)
    = (policy.onException ctx h).bind fun r => .done (r.1, f r.2)

/-- A slot that holds a handler behaves as that handler. -/
theorem TrapHandler.embeds_some (policy : TrapHandler η) : policy.Embeds policy.optional some where
  onInterrupt _ _ := rfl
  onException _ _ := rfl

/-- An empty slot behaves as the default hooks do, whatever handlers it could hold. -/
theorem TrapHandler.embeds_none (policy : TrapHandler η) :
    TrapHandler.standard.Embeds policy.optional fun _ : Unit => none where
  onInterrupt ctx u := by
    show _ = ((defaultInterrupt ctx).bind fun a => .done (a, u)).bind _
    rw [bind_assoc]
    rfl
  onException ctx u := by
    show _ = ((defaultException ctx).bind fun a => .done (a, u)).bind _
    rw [bind_assoc]
    rfl

/-- The pair of default functions has the default hooks. -/
theorem TrapHandler.ofFunctions_default :
    TrapHandler.ofFunctions defaultInterrupt defaultException = .standard := rfl

section Embedding

variable {policy : TrapHandler η} {policy' : TrapHandler η'} {f : η → η'}

theorem dispatch_embeds (h : policy.Embeds policy' f) (s : η) :
    Dispatcher.dispatch policy' ⟨f s⟩
      = (Dispatcher.dispatch policy ⟨s⟩).bind fun r => .done (r.1, ⟨f r.2.handler⟩) := by
  simp only [Dispatcher.dispatch, bind_eq, bind_assoc, h.onInterrupt, h.onException]
  congr 1
  funext ctx
  congr 1
  funext _
  cases ctx.isInterrupt with
  | true => simp only [if_true, bind_assoc]; rfl
  | false => simp only [Bool.false_eq_true, if_false, bind_assoc]; rfl

/-- Any traps in a row are served as the embedded policy serves them. -/
theorem serve_embeds (h : policy.Embeds policy' f) (p : Platform σ) (fuel : Nat)
    (happenings : List (σ → σ)) (state : η) (s : σ) :
    Dispatcher.serve policy' p fuel happenings ⟨f state⟩ s
      = (Dispatcher.serve policy p fuel happenings ⟨state⟩ s).andThen fun r s =>
          .returned (r.1, ⟨f r.2.handler⟩) s := by
  induction happenings generalizing state s with
  | nil => rfl
  | cons before rest ih =>
      simp only [Dispatcher.serve, dispatch_embeds h, run_bind, Outcome.andThen_assoc]
      congr 1
      funext r s
      show ((Dispatcher.serve policy' p fuel rest ⟨f r.2.handler⟩ s).andThen _) = _
      rw [ih]
      simp only [Outcome.andThen_assoc]
      rfl

theorem actions_embeds (h : policy.Embeds policy' f) (p : Platform σ) (fuel : Nat)
    (happenings : List (σ → σ)) (state : η) (s : σ) :
    (Dispatcher.serve policy' p fuel happenings ⟨f state⟩ s).actions
      = (Dispatcher.serve policy p fuel happenings ⟨state⟩ s).actions := by
  rw [serve_embeds h, Outcome.actions, Outcome.andThen_assoc]
  rfl

end Embedding

/-! ## What the default policy does -/

/-- What becomes of a trap: the machine is `m` at its entry and `left` at its end. Other
registers than those named, and the devices, stay as they were. -/
structure DefaultOutcome (m : Machine δ) (action : TrapAction) (left : Machine δ) : Prop where
  line : IsLine m.trapContext.cause → m.csrs.refusal .mip = none →
    action = .resume ∧ left = m.setCsr .mip 0
  unknown : bitAt m.trapContext.cause 31 = true → ¬ IsLine m.trapContext.cause →
    m.csrs.refusal .mie = none → m.csrs.refusal .mstatus = none →
      action = .halt ∧ left = (m.setCsr .mie 0).masked
  exception : bitAt m.trapContext.cause 31 = false → action = .halt ∧ left = m

/-- What becomes of a sequence of traps, one outcome for each. -/
inductive DefaultRun : Machine δ → List (Machine δ → Machine δ) → List TrapAction →
    Machine δ → Prop
  | none (m : Machine δ) : DefaultRun m [] [] m
  | trap {m mid left : Machine δ} {before : Machine δ → Machine δ}
      {rest : List (Machine δ → Machine δ)} {action : TrapAction} {later : List TrapAction} :
      DefaultOutcome (before m) action mid → DefaultRun mid rest later left →
      DefaultRun m (before :: rest) (action :: later) left

section OneTrap

variable {bus : Bus δ} {fuel : Nat} {m : Machine δ}

theorem run_updateCsr {c : Csr} (h : m.csrs.refusal c = none) (op : CsrUpdate) :
    (request (.updateCsr c op)).run (Machine.platform bus) fuel m
      = .returned (.ok ()) (m.setCsr c (op.apply (m.csrs.file.get c))) := by
  rw [request, run, Machine.platform_updateCsr h]
  rfl

theorem run_updateCsr_refused {c : Csr} {e : DriverError} (h : m.csrs.refusal c = some e)
    (op : CsrUpdate) :
    (request (.updateCsr c op)).run (Machine.platform bus) fuel m = .returned (.error e) m := by
  rw [request, run, Machine.platform_updateCsr_refused h]
  rfl

variable (bus fuel m)

/-- Masking goes as far as the registers let it. -/
theorem run_maskAllOrReport (target : LogTarget) :
    ∃ left, (maskAllOrReport target).run (Machine.platform bus) fuel m = .returned () left ∧
      (m.csrs.refusal .mie = none → m.csrs.refusal .mstatus = none →
        left = (m.setCsr .mie 0).masked) := by
  rw [maskAllOrReport, bind_eq, run_bind, Interrupts.disableAll, bind_eq, run_bind]
  cases hmie : m.csrs.refusal .mie with
  | some e =>
      rw [Csr.write, run_updateCsr_refused hmie]
      refine ⟨m, run_report, fun h => ?_⟩
      cases h
  | none =>
      rw [Csr.write, run_updateCsr hmie]
      cases hstatus : (m.setCsr .mie 0).csrs.refusal .mstatus with
      | some e =>
          refine ⟨m.setCsr .mie 0, ?_, fun _ h => ?_⟩
          · simp only [Outcome.andThen_returned, Csr.clearBits, CsrUpdate.apply,
              run_updateCsr_refused hstatus]
            exact run_report
          · cases h.symm.trans hstatus
      | none =>
          refine ⟨(m.setCsr .mie 0).masked, ?_, fun _ _ => rfl⟩
          simp only [Outcome.andThen_returned, Csr.clearBits, CsrUpdate.apply,
            run_updateCsr hstatus]
          rfl

/-- The unknown interrupts are those of no line. -/
theorem TrapContext.trap_unknown_iff {ctx : TrapContext} (h : ctx.isInterrupt = true) :
    (∃ code, ctx.trap = .interrupt (.unknown code)) ↔ ¬ IsLine ctx.cause := by
  rcases trap_cases h with ⟨hc, ht⟩ | ⟨hc, ht⟩ | ⟨hc, ht⟩ | ⟨hc, channel, ht⟩ | ⟨hno, hunknown⟩
  · simp [ht, IsLine, hc]
  · simp [ht, IsLine, hc]
  · simp [ht, IsLine, hc]
  · simp [ht, IsLine, hc]
  · exact iff_of_true hunknown hno

/-- On a line of its own everything pending is acknowledged. -/
theorem run_defaultInterrupt_line {ctx : TrapContext}
    (h : ¬ ∃ code, ctx.trap = .interrupt (.unknown code)) :
    ∃ action left, (defaultInterrupt ctx).run (Machine.platform bus) fuel m
        = .returned action left ∧
      (m.csrs.refusal .mip = none → action = .resume ∧ left = m.setCsr .mip 0) := by
  unfold defaultInterrupt
  split
  case h_1 code ht => exact absurd ⟨code, ht⟩ h
  case h_2 =>
    rw [bind_eq, run_bind, Interrupts.clearAllPending, Csr.write]
    cases hmip : m.csrs.refusal .mip with
    | some e =>
        rw [run_updateCsr_refused hmip]
        refine ⟨.halt, m, rfl, fun h => ?_⟩
        cases h
    | none =>
        rw [run_updateCsr hmip]
        exact ⟨.resume, m.setCsr .mip 0, rfl, fun _ => ⟨rfl, rfl⟩⟩

theorem run_defaultInterrupt_unknown {ctx : TrapContext}
    (h : ∃ code, ctx.trap = .interrupt (.unknown code)) :
    ∃ left, (defaultInterrupt ctx).run (Machine.platform bus) fuel m = .returned .halt left ∧
      (m.csrs.refusal .mie = none → m.csrs.refusal .mstatus = none →
        left = (m.setCsr .mie 0).masked) := by
  obtain ⟨code, ht⟩ := h
  obtain ⟨left, hmask, hleft⟩ := run_maskAllOrReport bus fuel m .trap
  refine ⟨left, ?_, hleft⟩
  rw [defaultInterrupt, ht]
  simp only [bind_eq, run_bind, run_report, Outcome.andThen_returned, hmask]
  rfl

theorem run_defaultInterrupt (hbit : bitAt m.trapContext.cause 31 = true) :
    ∃ action left, (defaultInterrupt m.trapContext).run (Machine.platform bus) fuel m
        = .returned action left ∧ DefaultOutcome m action left := by
  have hunknown := TrapContext.trap_unknown_iff ((TrapContext.isInterrupt_eq _).trans hbit)
  have hexception : bitAt m.trapContext.cause 31 ≠ false := fun h => by
    rw [hbit] at h
    cases h
  by_cases hline : IsLine m.trapContext.cause
  · obtain ⟨action, left, hrun, h⟩ :=
      run_defaultInterrupt_line bus fuel m fun h => hunknown.mp h hline
    exact ⟨action, left, hrun, fun _ => h, fun _ hno => absurd hline hno,
      fun hno => absurd hno hexception⟩
  · obtain ⟨left, hrun, h⟩ :=
      run_defaultInterrupt_unknown bus fuel m (hunknown.mpr hline)
    exact ⟨.halt, left, hrun, fun hl => absurd hl hline,
      fun _ _ hmie hstatus => ⟨rfl, h hmie hstatus⟩, fun hno => absurd hno hexception⟩

theorem run_defaultException (ctx : TrapContext) :
    (defaultException ctx).run (Machine.platform bus) fuel m = .returned .halt m := by
  rw [defaultException, bind_eq, run_bind, run_report]
  rfl

/-- **One trap under the default policy.** It always comes to an end, at whatever cause. -/
theorem run_dispatch_standard (h : η) :
    ∃ action left, (Dispatcher.dispatch .standard ⟨h⟩).run (Machine.platform bus) fuel m
        = .returned (action, ⟨h⟩) left ∧ DefaultOutcome m action left := by
  rw [run_dispatch, TrapHandler.hook]
  cases hbit : bitAt m.trapContext.cause 31 with
  | true =>
      obtain ⟨action, left, hrun, hout⟩ := run_defaultInterrupt bus fuel m hbit
      refine ⟨action, left, ?_, hout⟩
      show Outcome.andThen (((defaultInterrupt m.trapContext).bind fun a => .done (a, h)).run
        _ _ _) _ = _
      rw [run_bind, hrun]
      simp only [Outcome.andThen_returned, run, Machine.settled, hbit, Bool.true_eq_false,
        false_and, if_false]
  | false =>
      refine ⟨.halt, m, ?_, fun hl => ?_, fun hno => ?_, fun _ => ⟨rfl, rfl⟩⟩
      · show Outcome.andThen (((defaultException m.trapContext).bind fun a => .done (a, h)).run
          _ _ _) _ = _
        rw [run_bind, run_defaultException]
        simp [run, Machine.settled]
      · have := TrapContext.isInterrupt_of_isLine hl
        rw [TrapContext.isInterrupt_eq, hbit] at this
        cases this
      · rw [hbit] at hno
        cases hno

end OneTrap

theorem serve_standard (bus : Bus δ) (fuel : Nat) (happenings : List (Machine δ → Machine δ)) (h : η)
    (m : Machine δ) :
    ∃ actions left, Dispatcher.serve .standard (Machine.platform bus) fuel happenings ⟨h⟩ m
        = .returned (actions, ⟨h⟩) left ∧ DefaultRun m happenings actions left := by
  induction happenings generalizing m with
  | nil => exact ⟨[], m, rfl, .none m⟩
  | cons before rest ih =>
      obtain ⟨action, mid, hone, hout⟩ :=
        run_dispatch_standard bus fuel (before m) h
      obtain ⟨later, left, hrest, hrun⟩ := ih mid
      refine ⟨action :: later, left, ?_, .trap hout hrun⟩
      simp only [Dispatcher.serve, hone, Outcome.andThen_returned, hrest]

/-! ## All forms of the policy -/

/-- **All forms of the default policy agree.** On every platform, so on every CSR file and
with every log record noted, and for every sequence of traps: a slot that holds a handler
serves the traps as the handler does, and the pair of default functions, an empty slot and
a slot that holds the default hooks all end as the default hooks do, with the same actions
in the same state. On a machine that end is reached, and each trap of the sequence has the
outcome that its cause asks for. -/
theorem default_policies_agree :
    (∀ {σ η : Type} (policy : TrapHandler η) (h : η) (p : Platform σ) (fuel : Nat)
      (happenings : List (σ → σ)) (s : σ),
      Dispatcher.serve policy.optional p fuel happenings ⟨some h⟩ s
        = (Dispatcher.serve policy p fuel happenings ⟨h⟩ s).andThen fun r s =>
            .returned (r.1, ⟨some r.2.handler⟩) s) ∧
    (∀ {σ η : Type} (policy : TrapHandler η) (p : Platform σ) (fuel : Nat)
      (happenings : List (σ → σ)) (s : σ),
      let default := (Dispatcher.serve .standard p fuel happenings ⟨()⟩ s).actions
      (Dispatcher.serve (.ofFunctions defaultInterrupt defaultException) p fuel happenings
        ⟨()⟩ s).actions = default ∧
      (Dispatcher.serve policy.optional p fuel happenings ⟨none⟩ s).actions = default ∧
      (Dispatcher.serve (TrapHandler.standard.optional) p fuel happenings ⟨some ()⟩ s).actions
        = default) ∧
    (∀ {δ : Type} (bus : Bus δ) (fuel : Nat) (happenings : List (Machine δ → Machine δ))
      (m : Machine δ),
      ∃ actions left,
        (Dispatcher.serve .standard (Machine.platform bus) fuel happenings ⟨()⟩ m).actions
          = .returned actions left ∧ DefaultRun m happenings actions left) := by
  refine ⟨fun policy h p fuel happenings s => serve_embeds policy.embeds_some p fuel happenings h s,
    fun policy p fuel happenings s => ⟨?_, ?_, ?_⟩, fun bus fuel happenings m => ?_⟩
  · rw [TrapHandler.ofFunctions_default]
  · exact actions_embeds policy.embeds_none p fuel happenings () s
  · exact actions_embeds (TrapHandler.embeds_some .standard) p fuel happenings () s
  · obtain ⟨actions, left, hserve, hrun⟩ := serve_standard bus fuel happenings () m
    exact ⟨actions, left, by rw [hserve]; rfl, hrun⟩

/-- The traps of the highest external channel, of the first code beyond it, and of an
exception without a name, one after another, find an empty slot. -/
theorem default_policies_agree_empty_slot :
    let m : Machine UartModel := ((Machine.setCsr { device := {} } .mip 0xFFFF0888).setCsr
      .mie 0xFFFF0888).setCsr .mstatus 0x1888
    let happenings : List (Machine UartModel → Machine UartModel) :=
      [(·.describeTrap ⟨0x8000001F, 0x100, 0⟩), (·.describeTrap ⟨0x80000020, 0x104, 0⟩),
        (·.describeTrap ⟨0x18, 0x108, 0⟩)]
    ∃ left : Machine UartModel,
      (Dispatcher.serve (TrapHandler.optional TrapRecorder.handler)
        (Machine.platform UartModel.bus) 0 happenings ⟨none⟩ m).actions
        = .returned [.resume, .halt, .halt] left ∧
      left.csrs.file.get .mip = 0 ∧ left.csrs.file.get .mie = 0 ∧
      left.csrs.file.get .mstatus = 0x1880 := by
  have hserve : ∃ left : Machine UartModel,
      (Dispatcher.serve .standard (Machine.platform UartModel.bus) 0
        [(·.describeTrap ⟨0x8000001F, 0x100, 0⟩), (·.describeTrap ⟨0x80000020, 0x104, 0⟩),
          (·.describeTrap ⟨0x18, 0x108, 0⟩)] (⟨()⟩ : Dispatcher Unit)
        (((Machine.setCsr { device := {} } .mip 0xFFFF0888).setCsr .mie 0xFFFF0888).setCsr
          .mstatus 0x1888)).actions = .returned [.resume, .halt, .halt] left ∧
      left.csrs.file.get .mip = 0 ∧ left.csrs.file.get .mie = 0 ∧
      left.csrs.file.get .mstatus = 0x1880 := ⟨_, rfl, rfl, rfl, rfl⟩
  intro m happenings
  obtain ⟨left, hserve, hcsrs⟩ := hserve
  obtain ⟨-, hforms, -⟩ := default_policies_agree
  have hempty := (hforms TrapRecorder.handler (Machine.platform UartModel.bus) 0 happenings m).2.1
  exact ⟨left, hempty.trans hserve, hcsrs⟩

end BoardSupport
