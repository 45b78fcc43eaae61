import BoardSupport.Device.Uart
import BoardSupport.Proofs.Device.Access
import BoardSupport.Proofs.Trap.Cause
import BoardSupport.Trap.Dispatcher
import BoardSupport.Trap.Policy

/-!
# One trap, one hook

A dispatcher reads the CSRs before anything else, so the context of a trap is the one
that hardware left there (`Machine.trapContext`), whatever the hook does to the CSRs
later. What it adds to the hook is a change of the return address after an exception
that is resumed (`Machine.settled`). `run_dispatch` says so for every hook, also one
that never returns: a dispatch runs as one hook and then settles.

Handlers are installed and traps are dispatched in any order (`DispatcherHistory`).
What a handler has come to is told by the traps since it was installed (`Serves`),
each delivered once, and this is what the installation of the next one gives back
(`dispatch_delivers`).
-/

namespace BoardSupport

open Program

variable {δ η : Type} {bus : Bus δ}

/-! ## One dispatch -/

/-- The trap that the CSRs describe. -/
def Machine.trapContext (m : Machine δ) : TrapContext :=
  ⟨m.csrs.file.get .mcause, m.csrs.file.get .mepc, m.csrs.file.get .mtval⟩

/-- The hook that a trap goes to. -/
def TrapHandler.hook (policy : TrapHandler η) (ctx : TrapContext) (h : η) :
    Program (TrapAction × η) :=
  if bitAt ctx.cause 31 then policy.onInterrupt ctx h else policy.onException ctx h

/-- What a dispatcher makes of a hook's answer and of the machine that the hook left: a
resumed exception goes on behind its instruction, and halts if that is refused. -/
def Machine.settled (left : Machine δ) (ctx : TrapContext) (answer : TrapAction) :
    TrapAction × Machine δ :=
  if bitAt ctx.cause 31 = false ∧ answer = .resume then
    match left.csrs.refusal .mepc with
    | none => (.resume, left.setCsr .mepc (ctx.pc + 4))
    | some _ => (.halt, left)
  else (answer, left)

section OneDispatch

variable {fuel : Nat} {m : Machine δ}

theorem run_capture :
    TrapContext.capture.run (Machine.platform bus) fuel m = .returned m.trapContext m := rfl

theorem run_report {level : LogLevel} {target : LogTarget} {text : String} :
    (report level target (pure text)).run (Machine.platform bus) fuel m = .returned () m := by
  show ((if m.filter.admits level then _ else _ : Program Unit)).run _ fuel m = _
  split
  · rfl
  · rfl

/-- After an exception the dispatcher finishes as settled. -/
theorem run_finishException {ctx : TrapContext} (hctx : bitAt ctx.cause 31 = false)
    (answer : TrapAction) :
    (Dispatcher.finishException ctx answer).run (Machine.platform bus) fuel m
      = .returned (m.settled ctx answer).1 (m.settled ctx answer).2 := by
  by_cases ha : answer = .resume
  · subst ha
    show ((Csr.mepc.write (ctx.pc + 4)).bind _).run _ fuel m = _
    rw [run_bind, Csr.write, request, run, Machine.settled, if_pos ⟨hctx, rfl⟩]
    cases hr : m.csrs.refusal .mepc with
    | none =>
        rw [Machine.platform_updateCsr hr]
        rfl
    | some e =>
        rw [Machine.platform_updateCsr_refused hr]
        rfl
  · rw [Machine.settled, if_neg fun h => ha h.2, Dispatcher.finishException, if_neg ha]
    rfl

/-- **A dispatch is one hook and its settling.** The hook runs on the installed handler's
state, with the context held at entry; where it does not return, neither does the
dispatch. -/
theorem run_dispatch (policy : TrapHandler η) (d : Dispatcher η) :
    (Dispatcher.dispatch policy d).run (Machine.platform bus) fuel m
      = ((policy.hook m.trapContext d.handler).run (Machine.platform bus) fuel m).andThen
          fun r left => .returned ((left.settled m.trapContext r.1).1, ⟨r.2⟩)
            (left.settled m.trapContext r.1).2 := by
  simp only [Dispatcher.dispatch, bind_eq, run_bind, run_capture, run_report,
    Outcome.andThen_returned, TrapContext.isInterrupt_eq, TrapHandler.hook]
  cases hbit : bitAt m.trapContext.cause 31 with
  | true =>
      simp only [if_true, run_bind, Machine.settled, hbit, Bool.true_eq_false, false_and, if_false]
      rfl
  | false =>
      simp only [Bool.false_eq_true, if_false, run_bind, run_finishException hbit]
      rfl

end OneDispatch

/-! ## What one dispatch delivers -/

/-- What a dispatcher may do beside the hook: nothing, but for an exception that the hook
answers with resuming. `left` is the machine that the hook left. -/
structure FixesUp (ctx : TrapContext) (answer : TrapAction) (left : Machine δ)
    (action : TrapAction) (exit : Machine δ) : Prop where
  untouched : bitAt ctx.cause 31 = true ∨ answer ≠ .resume → action = answer ∧ exit = left
  skips : bitAt ctx.cause 31 = false → answer = .resume → left.csrs.refusal .mepc = none →
    action = .resume ∧ exit = left.setCsr .mepc (ctx.pc + 4)
  refused : bitAt ctx.cause 31 = false → answer = .resume → left.csrs.refusal .mepc ≠ none →
    action = .halt ∧ exit = left

theorem Machine.fixesUp_settled (left : Machine δ) (ctx : TrapContext) (answer : TrapAction) :
    FixesUp ctx answer left (left.settled ctx answer).1 (left.settled ctx answer).2 := by
  refine ⟨fun h => ?_, fun hbit ha hr => ?_, fun hbit ha hr => ?_⟩
  · have hneg : ¬ (bitAt ctx.cause 31 = false ∧ answer = .resume) := by
      rintro ⟨hbit, ha⟩
      rcases h with h | h
      · rw [h] at hbit
        cases hbit
      · exact h ha
    rw [settled, if_neg hneg]
    exact ⟨rfl, rfl⟩
  · rw [settled, if_pos ⟨hbit, ha⟩, hr]
    exact ⟨rfl, rfl⟩
  · obtain ⟨e, he⟩ := Option.ne_none_iff_exists'.mp hr
    rw [settled, if_pos ⟨hbit, ha⟩, he]
    exact ⟨rfl, rfl⟩

/-- A trap that was dispatched: the machine at its entry, and the action and the machine
it ended with. -/
structure Trapped (δ : Type) where
  entry : Machine δ
  action : TrapAction
  exit : Machine δ

/-- The trap was delivered by one call of one hook, on a handler that was `h` and is
`h'` now. -/
def Delivers (policy : TrapHandler η) (bus : Bus δ) (h : η) (t : Trapped δ) (h' : η) : Prop :=
  ∃ answer left,
    Returns (Machine.platform bus) (policy.hook t.entry.trapContext h) t.entry (answer, h') left ∧
      FixesUp t.entry.trapContext answer left t.action t.exit

theorem delivers_of_returns {policy : TrapHandler η} {d d' : Dispatcher η} {t : Trapped δ}
    (h : Returns (Machine.platform bus) (Dispatcher.dispatch policy d) t.entry (t.action, d')
      t.exit) : Delivers policy bus d.handler t d'.handler := by
  obtain ⟨fuel, h⟩ := h
  rw [run_dispatch] at h
  cases hook : (policy.hook t.entry.trapContext d.handler).run (Machine.platform bus) fuel
      t.entry with
  | stopped c left =>
      rw [hook] at h
      cases h
  | returned r left =>
      rw [hook, Outcome.andThen_returned] at h
      injection h with hvalue hexit
      injection hvalue with haction hhandler
      have hfix := left.fixesUp_settled t.entry.trapContext r.1
      rw [haction, hexit] at hfix
      rw [← hhandler]
      exact ⟨r.1, left, ⟨fuel, hook⟩, hfix⟩

/-! ## Handlers over time -/

/-- A call of a dispatcher that has returned. -/
inductive DispatcherCall (η δ : Type)
  | install (new replaced : η)
  | dispatch (trap : Trapped δ)

/-- Calls of a dispatcher that started with the handler `first`. Between two of them the
CSRs and the devices may change in any way. -/
inductive DispatcherHistory (policy : TrapHandler η) (bus : Bus δ) (first : η) :
    List (DispatcherCall η δ) → Dispatcher η → Machine δ → Prop
  | start (m : Machine δ) : DispatcherHistory policy bus first [] ⟨first⟩ m
  | change {calls : List (DispatcherCall η δ)} {d : Dispatcher η} {m : Machine δ}
      (m' : Machine δ) : DispatcherHistory policy bus first calls d m →
      DispatcherHistory policy bus first calls d m'
  | install {calls : List (DispatcherCall η δ)} {d d' : Dispatcher η} {m : Machine δ}
      {new replaced : η} : DispatcherHistory policy bus first calls d m →
      d.install new = (replaced, d') →
      DispatcherHistory policy bus first (calls ++ [.install new replaced]) d' m
  | dispatch {calls : List (DispatcherCall η δ)} {d d' : Dispatcher η} {m m' : Machine δ}
      {action : TrapAction} : DispatcherHistory policy bus first calls d m →
      Returns (Machine.platform bus) (Dispatcher.dispatch policy d) m (action, d') m' →
      DispatcherHistory policy bus first (calls ++ [.dispatch ⟨m, action, m'⟩]) d' m'

/-- The handler installed last, as it was then, and the traps dispatched since. -/
def lastInstalled (first : η) (calls : List (DispatcherCall η δ)) : η × List (Trapped δ) :=
  calls.foldl (fun
    | _, .install new _ => (new, [])
    | (h, traps), .dispatch t => (h, traps ++ [t])) (first, [])

/-- The traps take a handler from `h` to `h'`, each delivered once, in order. -/
inductive Serves (policy : TrapHandler η) (bus : Bus δ) (h : η) : List (Trapped δ) → η → Prop
  | none : Serves policy bus h [] h
  | trap {traps : List (Trapped δ)} {t : Trapped δ} {h' h'' : η} :
      Serves policy bus h traps h' → Delivers policy bus h' t h'' →
      Serves policy bus h (traps ++ [t]) h''

/-- What a call has done, by the calls before it: an installation gives back the handler
that has served the traps since its own, a dispatch delivers one trap to it. -/
def DispatcherCall.Accounted (policy : TrapHandler η) (bus : Bus δ) (first : η)
    (before : List (DispatcherCall η δ)) : DispatcherCall η δ → Prop
  | .install _ replaced =>
    Serves policy bus (lastInstalled first before).1 (lastInstalled first before).2 replaced
  | .dispatch t => ∃ h h',
    Serves policy bus (lastInstalled first before).1 (lastInstalled first before).2 h ∧
      Delivers policy bus h t h'

section History

variable {policy : TrapHandler η} {first : η} {calls : List (DispatcherCall η δ)}
  {d : Dispatcher η} {m : Machine δ}

theorem lastInstalled_install (first : η) (calls : List (DispatcherCall η δ)) (new replaced : η) :
    lastInstalled first (calls ++ [.install new replaced]) = (new, []) := by
  rw [lastInstalled, List.foldl_append]
  rfl

theorem lastInstalled_dispatch (first : η) (calls : List (DispatcherCall η δ)) (t : Trapped δ) :
    lastInstalled first (calls ++ [.dispatch t])
      = ((lastInstalled first calls).1, (lastInstalled first calls).2 ++ [t]) := by
  rw [lastInstalled, List.foldl_append]
  rfl

/-- The installed handler has served the traps since it was installed. -/
theorem DispatcherHistory.serves (h : DispatcherHistory policy bus first calls d m) :
    Serves policy bus (lastInstalled first calls).1 (lastInstalled first calls).2 d.handler := by
  induction h with
  | start m => exact .none
  | change m' _ ih => exact ih
  | install _ hinst _ =>
      rw [lastInstalled_install]
      obtain ⟨-, rfl⟩ := Prod.ext_iff.mp hinst
      exact .none
  | dispatch _ hret ih =>
      rw [lastInstalled_dispatch]
      exact ih.trap (delivers_of_returns hret)

theorem DispatcherHistory.accounted (h : DispatcherHistory policy bus first calls d m)
    {before : List (DispatcherCall η δ)} {call : DispatcherCall η δ}
    (hcall : before ++ [call] <+: calls) : call.Accounted policy bus first before := by
  induction h with
  | start m => simp at hcall
  | change m' _ ih => exact ih hcall
  | install hist hinst ih =>
      rcases List.prefix_concat_iff.mp hcall with heq | hcall
      · obtain ⟨rfl, hlast⟩ := List.append_inj' heq rfl
        cases hlast
        obtain ⟨rfl, -⟩ := Prod.ext_iff.mp hinst
        exact hist.serves
      · exact ih hcall
  | dispatch hist hret ih =>
      rcases List.prefix_concat_iff.mp hcall with heq | hcall
      · obtain ⟨rfl, hlast⟩ := List.append_inj' heq rfl
        cases hlast
        exact ⟨_, _, hist.serves, delivers_of_returns hret⟩
      · exact ih hcall

end History

/-! ## Counting hook calls -/

/-- The handler that also keeps a record of the calls of its hooks: which of the two, and
with what context. -/
def TrapHandler.recording (policy : TrapHandler η) :
    TrapHandler (η × List (Bool × TrapContext)) where
  onInterrupt ctx h := do
    let (answer, h') ← policy.onInterrupt ctx h.1
    return (answer, h', h.2 ++ [(true, ctx)])
  onException ctx h := do
    let (answer, h') ← policy.onException ctx h.1
    return (answer, h', h.2 ++ [(false, ctx)])

/-- The call that a trap must make: of the hook for interrupts if bit 31 of the cause was
set at entry, with the context held at entry. -/
def Trapped.call (t : Trapped δ) : Bool × TrapContext :=
  (bitAt (t.entry.csrs.file.get .mcause) 31, t.entry.trapContext)

theorem hook_recording (policy : TrapHandler η) (ctx : TrapContext)
    (h : η × List (Bool × TrapContext)) :
    policy.recording.hook ctx h = (policy.hook ctx h.1).bind fun r =>
      .done (r.1, r.2, h.2 ++ [(bitAt ctx.cause 31, ctx)]) := by
  unfold TrapHandler.hook
  cases hbit : bitAt ctx.cause 31 with
  | true => rfl
  | false => rfl

theorem delivers_of_recording {policy : TrapHandler η} {h h' : η × List (Bool × TrapContext)}
    {t : Trapped δ} (hd : Delivers policy.recording bus h t h') :
    Delivers policy bus h.1 t h'.1 ∧ h'.2 = h.2 ++ [t.call] := by
  obtain ⟨answer, left, hhook, hfix⟩ := hd
  rw [hook_recording] at hhook
  obtain ⟨r, mid, hcall, hdone⟩ := returns_bind.mp hhook
  obtain ⟨hvalue, rfl⟩ := returns_done.mp hdone
  injection hvalue with hanswer hstate
  subst hanswer
  rw [← hstate]
  exact ⟨⟨r.1, mid, hcall, hfix⟩, rfl⟩

/-- Traps that a recording handler has served are its record, one call for each. -/
theorem serves_of_recording {policy : TrapHandler η} {h h' : η × List (Bool × TrapContext)}
    {traps : List (Trapped δ)} (hs : Serves policy.recording bus h traps h') :
    Serves policy bus h.1 traps h'.1 ∧ h'.2 = h.2 ++ traps.map Trapped.call := by
  induction hs with
  | none => exact ⟨.none, (List.append_nil _).symm⟩
  | trap _ hd ih =>
      obtain ⟨hd', hcall⟩ := delivers_of_recording hd
      refine ⟨ih.1.trap hd', ?_⟩
      rw [hcall, ih.2, List.map_append, List.append_assoc]
      rfl

/-! ## All handlers -/

/-- **Every trap is delivered exactly once.** Whatever the hooks of a handler do to the
CSRs and the devices: a dispatch runs as the one hook that bit 31 of the cause chooses,
with the context held at entry, and then only settles the return address. Over any calls
of a dispatcher the installed handler has served the traps since its installation, each
installation gives the replaced handler in the state that its traps brought it to, and
a handler that records the calls of its hooks finds one for each of its traps. -/
theorem dispatch_delivers (policy : TrapHandler η) (bus : Bus δ) :
    (∀ (d : Dispatcher η) (m : Machine δ) (fuel : Nat),
      (Dispatcher.dispatch policy d).run (Machine.platform bus) fuel m
        = ((policy.hook m.trapContext d.handler).run (Machine.platform bus) fuel m).andThen
            fun r left => .returned ((left.settled m.trapContext r.1).1, ⟨r.2⟩)
              (left.settled m.trapContext r.1).2) ∧
    (∀ (left : Machine δ) (ctx : TrapContext) (answer : TrapAction),
      FixesUp ctx answer left (left.settled ctx answer).1 (left.settled ctx answer).2) ∧
    (∀ (first : η) (calls : List (DispatcherCall η δ)) (d : Dispatcher η) (m : Machine δ),
      DispatcherHistory policy bus first calls d m →
        Serves policy bus (lastInstalled first calls).1 (lastInstalled first calls).2 d.handler ∧
        ∀ before call, before ++ [call] <+: calls → call.Accounted policy bus first before) ∧
    (∀ (h h' : η × List (Bool × TrapContext)) (traps : List (Trapped δ)),
      Serves policy.recording bus h traps h' →
        Serves policy bus h.1 traps h'.1 ∧ h'.2 = h.2 ++ traps.map Trapped.call) :=
  ⟨fun _ _ _ => run_dispatch policy _, Machine.fixesUp_settled,
    fun _ _ _ _ h => ⟨h.serves, fun _ _ => h.accounted⟩, fun _ _ _ => serves_of_recording⟩

/-- A handler that resumes exceptions and writes the return address itself. -/
def overwritingHandler : TrapHandler Unit :=
  .ofFunctions (fun _ => .done .retry) fun _ => do
    let _ ← Csr.mepc.write 0xDEAD
    return .resume

/-- An exception at the highest instruction, with a handler that writes the return address:
the trap is delivered once, by the hook for exceptions, and goes on behind the instruction
that it came from. -/
theorem dispatch_delivers_overwritten :
    let m : Machine UartModel :=
      (Machine.setCsr { device := {} } .mcause 2).setCsr .mepc 0xFFFFFFFC
    ∃ m' : Machine UartModel, m'.csrs.file.get .mepc = 0 ∧
      Serves overwritingHandler UartModel.bus () [⟨m, .resume, m'⟩] () ∧
      [(false, ⟨2, 0xFFFFFFFC, 0⟩)] = [] ++ [Trapped.call ⟨m, .resume, m'⟩] := by
  have hrun : ∃ m' : Machine UartModel, m'.csrs.file.get .mepc = 0 ∧
      Returns (Machine.platform UartModel.bus) (Dispatcher.dispatch overwritingHandler ⟨()⟩)
        ((Machine.setCsr { device := {} } .mcause 2).setCsr .mepc 0xFFFFFFFC) (.resume, ⟨()⟩) m' ∧
      Returns (Machine.platform UartModel.bus)
        (Dispatcher.dispatch overwritingHandler.recording ⟨((), [])⟩)
        ((Machine.setCsr { device := {} } .mcause 2).setCsr .mepc 0xFFFFFFFC)
        (.resume, ⟨((), [(false, ⟨2, 0xFFFFFFFC, 0⟩)])⟩) m' :=
    ⟨_, rfl, ⟨0, rfl⟩, ⟨0, rfl⟩⟩
  intro m
  obtain ⟨m', hpc, hret, hrecorded⟩ := hrun
  obtain ⟨-, -, hhistory, hrecording⟩ := dispatch_delivers overwritingHandler UartModel.bus
  have hserves := Serves.none.trap (delivers_of_returns (t := ⟨m, .resume, m'⟩) hrecorded)
  exact ⟨m', hpc, (hhistory () _ _ m' (.dispatch (.start m) hret)).1, (hrecording _ _ _ hserves).2⟩

end BoardSupport
