import BoardSupport.Proofs.Csr.Interrupts
import BoardSupport.Proofs.Program.Exchanges
import BoardSupport.Proofs.Program.Refinement

/-!
# Critical sections as devices see them

A critical section adds reads and updates of `mstatus` around its body, which no device
sees (`Silent`), and the body finds the devices as it would find them outside
(`SameDevice`). So a section whose body makes register accesses only shows the accesses
of that body, no more (`Interrupts.section_refines`) and no less
(`Interrupts.refines_section`), on a machine that can mask its interrupts. Whatever
answers it, the exchanges of a section are those of its body with some around them that no
device sees (`Interrupts.behaves_section`).
-/

namespace BoardSupport

open Program

/-! ## What devices see -/

/-- The register accesses among the exchanges, with their replies, oldest first. -/
def Recorded.accesses {σ : Type} (s : Recorded σ) : List Exchange :=
  s.trace.toList.filter fun e => e.request.isAccess

section Silent

variable {σ α : Type} {p : Platform σ} {s t : Recorded σ} {v : α}

theorem Recorded.accesses_push {r : Request} (v : r.Reply) (inner : σ) (s : Recorded σ) :
    (⟨inner, s.trace.push ⟨r, v⟩⟩ : Recorded σ).accesses
      = if r.isAccess then s.accesses ++ [⟨r, v⟩] else s.accesses := by
  cases hr : r.isAccess with
  | true => simp [accesses, hr]
  | false => simp [accesses, hr]

/-- A program that makes no register access. -/
def Silent (x : Program α) : Prop := Asks (fun r => r.isAccess = false) x

/-- Devices see nothing of a silent program. -/
theorem Silent.accesses_eq {x : Program α} (hx : Silent x) (h : Passes p.recorded x s t) :
    t.accesses = s.accesses := by
  have hall : Throughout p.recorded x s fun t => t.accesses = s.accesses := by
    refine hx.throughout (fun r u v u' hr hu hstep => ?_) rfl
    cases hp : p r u.inner with
    | stopped c inner =>
        rw [Platform.recorded_stopped hp] at hstep
        cases hstep
    | returned w inner =>
        rw [Platform.recorded_apply hp] at hstep
        cases hstep
        rw [Recorded.accesses_push, hr]
        exact hu
  exact hall.of_passes h

theorem Silent.returns_recorded {x : Program α} (hx : Silent x) {m : σ}
    (h : Returns p x s.inner v m) :
    ∃ t, Returns p.recorded x s v t ∧ t.inner = m ∧ t.accesses = s.accesses := by
  have hnoted : ∀ r m (v : r.Reply) m' (t : Recorded σ), r.isAccess = false → t.inner = m →
      p r m = .returned v m' → ∃ t', p.recorded r t = .returned v t' ∧ t'.inner = m' := by
    rintro r _ v m' t - rfl hstep
    exact ⟨_, Platform.recorded_apply hstep, rfl⟩
  obtain ⟨t, ht, hinner⟩ := hx.simulates hnoted rfl h
  exact ⟨t, ht, hinner, hx.accesses_eq ht.passes⟩

end Silent

variable {δ α : Type} {bus : Bus δ} {s t s' t' : Recorded (Machine δ)}

/-- The two have seen the same accesses. -/
def SameAccesses (s s' : Recorded (Machine δ)) : Prop := s.accesses = s'.accesses

/-- The two are one machine, that can mask its interrupts, and have seen the same
accesses; what else was exchanged may differ. -/
structure SameMachine (s s' : Recorded (Machine δ)) : Prop where
  inner : s.inner = s'.inner
  accesses : s.accesses = s'.accesses
  maskable : s.inner.csrs.refusal .mstatus = none

theorem SameMachine.symm (h : SameMachine s s') : SameMachine s' s where
  inner := h.inner.symm
  accesses := h.accesses.symm
  maskable := h.inner ▸ h.maskable

/-- The two are `m` and `m'` with the same devices, and have seen the same accesses. -/
structure SameDevice (m m' : Machine δ) (s s' : Recorded (Machine δ)) : Prop where
  inner : ∃ d, s.inner = { m with device := d } ∧ s'.inner = { m' with device := d }
  accesses : s.accesses = s'.accesses

theorem SameDevice.refines {m m' : Machine δ} {body : Program α}
    (hbody : Asks (fun r => r.isAccess = true) body) :
    Refines (Machine.platform bus).recorded (Machine.platform bus).recorded (SameDevice m m')
      (SameDevice m m') body body := by
  refine hbody.refines fun r s s' hr h => ?_
  obtain ⟨inner, trace⟩ := s
  obtain ⟨inner', trace'⟩ := s'
  obtain ⟨⟨d, rfl, rfl⟩, hacc⟩ := h
  rcases Machine.platform_access bus hr m m' d with
    ⟨v, d', hm, hm'⟩ | ⟨c, hm, hm'⟩
  · refine Or.inl ⟨v, _, _, Platform.recorded_apply hm, Platform.recorded_apply hm',
      ⟨d', rfl, rfl⟩, ?_⟩
    rw [Recorded.accesses_push v _ ⟨_, trace⟩, Recorded.accesses_push v _ ⟨_, trace'⟩, hacc]
  · exact Or.inr ⟨c, _, c, _, Platform.recorded_stopped hm, Platform.recorded_stopped hm'⟩

/-! ## Exchanges that devices do not see -/

/-- No device sees any of the exchanges. -/
def Unseen (trace : List Exchange) : Prop := ∀ e ∈ trace, e.request.isAccess = false

theorem unseen_nil : Unseen [] := fun _ he => absurd he List.not_mem_nil

theorem Unseen.cons {e : Exchange} {trace : List Exchange} (he : e.request.isAccess = false)
    (h : Unseen trace) : Unseen (e :: trace) := by
  intro e' he'
  rcases List.mem_cons.mp he' with rfl | he'
  · exact he
  · exact h e' he'

/-- Exchanges with `P`, and around them some that no device sees. -/
def Wrapped (P : List Exchange → Prop) (trace : List Exchange) : Prop :=
  ∃ head body tail, trace = head ++ body ++ tail ∧ P body ∧ Unseen head ∧ Unseen tail

/-- An update of `mstatus` was refused. -/
def MaskRefused (trace : List Exchange) : Prop :=
  ∃ op error, (⟨.updateCsr .mstatus op, .error error⟩ : Exchange) ∈ trace

theorem MaskRefused.mono {part trace : List Exchange} (h : MaskRefused part)
    (hsub : part ⊆ trace) : MaskRefused trace := by
  obtain ⟨op, error, hmem⟩ := h
  exact ⟨op, error, hsub hmem⟩

namespace Wrapped

variable {P : List Exchange → Prop} {trace : List Exchange}

theorem of_body (h : P trace) : Wrapped P trace :=
  ⟨[], trace, [], (List.append_nil _).symm, h, unseen_nil, unseen_nil⟩

theorem cons {e : Exchange} (he : e.request.isAccess = false) (h : Wrapped P trace) :
    Wrapped P (e :: trace) := by
  obtain ⟨head, body, tail, rfl, hbody, hhead, htail⟩ := h
  exact ⟨e :: head, body, tail, rfl, hbody, hhead.cons he, htail⟩

end Wrapped

/-! ## Critical sections -/

namespace Interrupts

theorem silent_disable : Silent disable := by
  refine Asks.bind (Asks.request rfl) fun _ => Asks.bind (Asks.request rfl) fun result => ?_
  cases result with
  | ok _ => exact .done _
  | error e => exact .done _

theorem silent_restore (enabled : Bool) (v : α) : Silent (restore enabled v) := by
  cases enabled with
  | false => exact .done _
  | true =>
      refine Asks.bind (Asks.request rfl) fun result => ?_
      cases result with
      | ok _ => exact .done _
      | error e => exact .done _

theorem behaves_disable : Behaves disable Unseen fun result trace =>
    Unseen trace ∧ ∀ error, result = .error error → MaskRefused trace := by
  have hread : Behaves Csr.mstatus.read Unseen fun status trace =>
      trace = [⟨.readCsr .mstatus, status⟩] := Behaves.request unseen_nil fun _ => rfl
  have hclear : Behaves (Csr.mstatus.clearBits Csr.interruptEnable) Unseen fun result trace =>
      trace = [⟨.updateCsr .mstatus (.clearBits Csr.interruptEnable), result⟩] :=
    Behaves.request unseen_nil fun _ => rfl
  refine hread.bind (fun _ h => h) ?_
  rintro status _ rfl
  refine hclear.bind (fun _ h => h.cons rfl) ?_
  rintro result _ rfl
  cases result with
  | ok u =>
      refine Behaves.done ⟨?_, fun error herror => nomatch herror⟩
      exact (unseen_nil.cons rfl).cons rfl
  | error e =>
      refine Behaves.done ⟨(unseen_nil.cons rfl).cons rfl, fun error _ => ?_⟩
      exact ⟨_, e, List.mem_cons_of_mem _ List.mem_cons_self⟩

theorem behaves_restore (enabled : Bool) (v : α) :
    Behaves (restore enabled v) Unseen fun result trace =>
      Unseen trace ∧ match result with
        | .ok w => w = v
        | .error _ => MaskRefused trace := by
  cases enabled with
  | false => exact Behaves.done ⟨unseen_nil, rfl⟩
  | true =>
      have hset : Behaves (Csr.mstatus.setBits Csr.interruptEnable) Unseen fun result trace =>
          trace = [⟨.updateCsr .mstatus (.setBits Csr.interruptEnable), result⟩] :=
        Behaves.request unseen_nil fun _ => rfl
      refine hset.bind (fun _ h => h) ?_
      rintro result _ rfl
      cases result with
      | ok u => exact Behaves.done ⟨unseen_nil.cons rfl, rfl⟩
      | error e => exact Behaves.done ⟨unseen_nil.cons rfl, _, e, List.mem_cons_self⟩

/-- A section gives what its body gives, after the exchanges of the body; it fails where
`mstatus` could not be written. -/
theorem behaves_section_result {body : Program α} {during : List Exchange → Prop}
    {after : α → List Exchange → Prop} (hstart : during [])
    (hbody : Behaves body during after) (hend : ∀ v t, after v t → during t) :
    Behaves (criticalSection body) (Wrapped during) fun result trace => match result with
      | .ok v => Wrapped (after v) trace
      | .error _ => Wrapped during trace ∧ MaskRefused trace := by
  have hunseen (trace : List Exchange) (h : Unseen trace) : Wrapped during trace :=
    ⟨trace, [], [], by simp, hstart, h, unseen_nil⟩
  rw [criticalSection_eq]
  refine behaves_disable.bind hunseen fun result head ⟨hhead, hrefused⟩ => ?_
  cases result with
  | error e =>
      refine Behaves.done ?_
      rw [List.append_nil]
      exact ⟨hunseen head hhead, hrefused e rfl⟩
  | ok enabled =>
      refine hbody.bind (fun t ht => ⟨head, t, [], by simp, ht, hhead, unseen_nil⟩)
        fun v t ht => ?_
      have hpart (tail : List Exchange) (htail : Unseen tail) :
          Wrapped during (head ++ (t ++ tail)) :=
        ⟨head, t, tail, by simp, hend v t ht, hhead, htail⟩
      refine (behaves_restore enabled v).mono hpart fun result tail ⟨htail, hresult⟩ => ?_
      cases result with
      | ok w =>
          obtain rfl : w = v := hresult
          exact ⟨head, t, tail, by simp, ht, hhead, htail⟩
      | error e =>
          have hrefused : MaskRefused (t ++ tail) :=
            MaskRefused.mono hresult (List.subset_append_right t tail)
          exact ⟨hpart tail htail, hrefused.mono (List.subset_append_right head _)⟩

/-- A section makes the exchanges of its body, all of them if `mstatus` could be written. -/
theorem behaves_section {body : Program α} {during : List Exchange → Prop}
    {after : α → List Exchange → Prop} (hstart : during [])
    (hbody : Behaves body during after) (hend : ∀ v t, after v t → during t) :
    Behaves (criticalSection body) (Wrapped during) fun _ trace =>
      (∃ v, Wrapped (after v) trace) ∨ Wrapped during trace ∧ MaskRefused trace := by
  refine (behaves_section_result hstart hbody hend).mono (fun _ h => h) fun result trace h => ?_
  cases result with
  | ok v => exact Or.inl ⟨v, h⟩
  | error e => exact Or.inr h

/-- The start of a section, as devices see it: nothing happens. -/
theorem exists_returns_mask (bus : Bus δ) (h : s.inner.csrs.refusal .mstatus = none) :
    ∃ u : Recorded (Machine δ), Returns (Machine.platform bus).recorded disable s
        (.ok s.inner.interruptsEnabled) u ∧
      u.inner = s.inner.masked ∧ u.accesses = s.accesses :=
  silent_disable.returns_recorded (returns_mask h)

theorem exists_returns_restore (bus : Bus δ) {m : Machine δ} {d : δ}
    (h : m.csrs.refusal .mstatus = none) (hs : s.inner = { m.masked with device := d }) (v : α) :
    ∃ u : Recorded (Machine δ), Returns (Machine.platform bus).recorded
        (restore m.interruptsEnabled v) s (.ok v) u ∧
      u.inner = { m with device := d } ∧ u.accesses = s.accesses := by
  refine (silent_restore _ v).returns_recorded ?_
  rw [hs]
  exact returns_restore h v d

variable {body : Program α}

/-- A section shows no more than its body. -/
theorem section_refines (bus : Bus δ) (hbody : Asks (fun r => r.isAccess = true) body) :
    Refines (Machine.platform bus).recorded (Machine.platform bus).recorded SameMachine
      SameAccesses (criticalSection body) (body.bind fun v => .done (.ok v)) where
  passes {s t s'} hR ht := by
    obtain ⟨u₀, hu₀, hinner, hacc⟩ := exists_returns_mask bus hR.maskable
    have hstart : SameDevice s.inner.masked s'.inner u₀ s' :=
      ⟨⟨s.inner.device, hinner, by rw [hR.inner]⟩, hacc.trans hR.accesses⟩
    rw [criticalSection_eq] at ht
    rcases passes_bind.mp ht with ht | ⟨r, u, hu, ht⟩
    · exact ⟨s', .start, (silent_disable.accesses_eq ht).trans hR.accesses⟩
    · obtain ⟨rfl, rfl⟩ := hu.unique hu₀
      rcases passes_bind.mp ht with ht | ⟨v, w, hw, ht⟩
      · obtain ⟨t', ht', hsame⟩ := (SameDevice.refines hbody).passes hstart ht
        exact ⟨t', passes_bind.mpr (Or.inl ht'), hsame.accesses⟩
      · obtain ⟨w', hw', hsame⟩ := (SameDevice.refines hbody).returns hstart hw
        exact ⟨w', passes_bind.mpr (Or.inl hw'.passes),
          ((silent_restore _ v).accesses_eq ht).trans hsame.accesses⟩
  returns {s t s' r} hR ht := by
    obtain ⟨u₀, hu₀, hinner, hacc⟩ := exists_returns_mask bus hR.maskable
    have hstart : SameDevice s.inner.masked s'.inner u₀ s' :=
      ⟨⟨s.inner.device, hinner, by rw [hR.inner]⟩, hacc.trans hR.accesses⟩
    rw [criticalSection_eq] at ht
    obtain ⟨_, u, hu, ht⟩ := returns_bind.mp ht
    obtain ⟨rfl, rfl⟩ := hu.unique hu₀
    obtain ⟨v, w, hw, ht⟩ := returns_bind.mp ht
    obtain ⟨w', hw', ⟨d, hd, hd'⟩, hsame⟩ := (SameDevice.refines hbody).returns hstart hw
    obtain ⟨t₀, ht₀, hinner, hacc⟩ := exists_returns_restore bus hR.maskable hd v
    obtain ⟨rfl, rfl⟩ := ht.unique ht₀
    refine ⟨w', hw'.map _, ?_, hacc.trans hsame, ?_⟩
    · rw [hinner, hd', hR.inner]
    · rw [hinner]
      exact hR.maskable

/-- A section shows no less than its body. -/
theorem refines_section (bus : Bus δ) (hbody : Asks (fun r => r.isAccess = true) body) :
    Refines (Machine.platform bus).recorded (Machine.platform bus).recorded SameMachine
      SameAccesses (body.bind fun v => .done (.ok v)) (criticalSection body) where
  passes {s t s'} hR ht := by
    obtain ⟨u, hu, hinner, hacc⟩ := exists_returns_mask bus hR.symm.maskable
    have hstart : SameDevice s.inner s'.inner.masked s u :=
      ⟨⟨s.inner.device, rfl, by rw [hinner, hR.inner]; rfl⟩, hR.accesses.trans hacc.symm⟩
    have hpasses : Passes (Machine.platform bus).recorded body s t := by
      rcases passes_bind.mp ht with ht | ⟨v, w, hw, ht⟩
      · exact ht
      · obtain rfl := passes_done.mp ht
        exact hw.passes
    obtain ⟨t', ht', hsame⟩ := (SameDevice.refines hbody).passes hstart hpasses
    rw [criticalSection_eq]
    exact ⟨t', passes_bind.mpr (Or.inr ⟨_, u, hu, passes_bind.mpr (Or.inl ht')⟩), hsame.accesses⟩
  returns {s t s' r} hR ht := by
    obtain ⟨u, hu, hinner, hacc⟩ := exists_returns_mask bus hR.symm.maskable
    have hstart : SameDevice s.inner s'.inner.masked s u :=
      ⟨⟨s.inner.device, rfl, by rw [hinner, hR.inner]; rfl⟩, hR.accesses.trans hacc.symm⟩
    obtain ⟨v, rfl, hv⟩ := returns_map.mp ht
    obtain ⟨w, hw, ⟨d, hd, hd'⟩, hsame⟩ := (SameDevice.refines hbody).returns hstart hv
    obtain ⟨t', ht', hinner, hacc⟩ := exists_returns_restore bus hR.symm.maskable hd' v
    rw [criticalSection_eq]
    refine ⟨t', hu.bind (hw.bind ht'), ?_, hsame.trans hacc.symm, ?_⟩
    · rw [hd, hinner, hR.inner]
    · rw [hd]
      exact hR.maskable

end Interrupts

end BoardSupport
