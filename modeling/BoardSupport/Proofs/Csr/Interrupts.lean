import BoardSupport.Csr.Interrupts
import BoardSupport.Proofs.Device.Access
import BoardSupport.Proofs.Program.Exchanges
import BoardSupport.Proofs.Register.Bits

/-!
# Masking interrupts on a hart

What the operations on `mstatus`, `mie` and `mip` leave behind on a hart that refuses no
update of its own (`Machine.Unrefused`). The global enable is one bit of `mstatus`, which
`Machine.withEnable` sets or clears.

A critical section runs its body once, on the hart with interrupts masked
(`Machine.masked`), and then sets the enable if it was set before; what the body does to
the CSRs is left alone (`Interrupts.completes_criticalSection`). For this the platform
only has to hold `mstatus` as a hart does (`Platform.HoldsStatus`); a body may change
everything else in any way.
-/

namespace BoardSupport

open Program

variable {δ α : Type} {bus : Bus δ} {m : Machine δ}

theorem Csr.interruptEnable_eq : Csr.interruptEnable = (Field.bit 3).mask := by decide

/-- Setting a register to what it holds changes nothing. -/
theorem CsrFile.set_get (s : CsrFile) (c : Csr) : s.set c (s.get c) = s := by
  refine CsrFile.ext_get fun d => ?_
  by_cases h : c = d
  · subst h
    rw [get_set_self]
  · rw [get_set_of_ne _ _ h]

theorem CsrFile.set_set (s : CsrFile) (c : Csr) (v w : UInt32) :
    (s.set c v).set c w = s.set c w := by
  refine CsrFile.ext_get fun d => ?_
  by_cases h : c = d
  · subst h
    rw [get_set_self, get_set_self]
  · rw [get_set_of_ne _ _ h, get_set_of_ne _ _ h, get_set_of_ne _ _ h]

theorem CsrFile.set_comm (s : CsrFile) {c d : Csr} (v w : UInt32) (h : c ≠ d) :
    (s.set c v).set d w = (s.set d w).set c v := by
  refine CsrFile.ext_get fun e => ?_
  rw [get_set, get_set, get_set, get_set]
  by_cases hd : d = e
  · rw [if_pos hd, if_neg fun hc => h (hc.trans hd.symm), if_pos hd]
  · rw [if_neg hd, if_neg hd]

namespace Machine

/-- No update of a register is refused for a reason of its own. -/
def Unrefused (m : Machine δ) : Prop := m.csrs.refusals = []

theorem Unrefused.refusal (h : m.Unrefused) {c : Csr} (hc : c.isReadOnly = false) :
    m.csrs.refusal c = none := by
  unfold Unrefused at h
  simp only [CsrUnit.refusal, h, List.lookup_nil, hc]
  rfl

/-- What is refused on a machine is refused for good. -/
theorem refusals_of_platform {m' : Machine δ} {r : Request} {v : r.Reply}
    (h : platform bus r m = .returned v m') : m'.csrs.refusals = m.csrs.refusals := by
  cases r with
  | load b offset =>
      obtain ⟨d, -, rfl⟩ := exists_of_platform_load h
      rfl
  | store b offset value =>
      obtain ⟨d, -, rfl⟩ := exists_of_platform_store h
      rfl
  | readCsr c =>
      cases h
      obtain ⟨device, csrs, cycles, filter, handler⟩ := m
      cases c with
      | cycle =>
          cases cycles with
          | nil => rfl
          | cons next rest => rfl
      | _ => rfl
  | updateCsr c op =>
      cases hr : m.csrs.refusal c with
      | none =>
          rw [platform_updateCsr hr] at h
          cases h
          rfl
      | some e =>
          rw [platform_updateCsr_refused hr] at h
          cases h
          rfl
  | waitForInterrupt => cases h
  | _ =>
      cases h
      rfl

@[simp] theorem setCsr_get (m : Machine δ) (c : Csr) : m.setCsr c (m.csrs.file.get c) = m := by
  rw [setCsr, CsrFile.set_get]

@[simp] theorem setCsr_setCsr (m : Machine δ) (c : Csr) (v w : UInt32) :
    (m.setCsr c v).setCsr c w = m.setCsr c w := by
  simp only [setCsr, CsrFile.set_set]

theorem setCsr_comm (m : Machine δ) {c d : Csr} (v w : UInt32) (h : c ≠ d) :
    (m.setCsr c v).setCsr d w = (m.setCsr d w).setCsr c v := by
  simp only [setCsr, CsrFile.set_comm _ _ _ h]

@[simp] theorem get_setCsr_self (m : Machine δ) (c : Csr) (v : UInt32) :
    (m.setCsr c v).csrs.file.get c = v := CsrFile.get_set_self _ _ _

theorem get_setCsr_of_ne (m : Machine δ) {c d : Csr} (v : UInt32) (h : c ≠ d) :
    (m.setCsr c v).csrs.file.get d = m.csrs.file.get d := CsrFile.get_set_of_ne _ _ h

/-! ## The global enable -/

end Machine

/-- A status word with the global enable set or cleared. -/
def Csr.putEnable (status : UInt32) (enabled : Bool) : UInt32 :=
  if enabled then status ||| Csr.interruptEnable else status &&& ~~~Csr.interruptEnable

theorem Csr.bitAt_putEnable (status : UInt32) (enabled : Bool) (i : Nat) :
    bitAt (putEnable status enabled) i = if i = 3 then enabled else bitAt status i := by
  cases enabled with
  | false =>
      rw [putEnable, if_neg Bool.false_ne_true, bitAt_and_not, interruptEnable_eq,
        Field.bitAt_bit_mask]
      by_cases hi : i = 3
      · simp [hi]
      · simp [hi]
  | true =>
      rw [putEnable, if_pos rfl, bitAt_or, interruptEnable_eq, Field.bitAt_bit_mask]
      by_cases hi : i = 3
      · simp [hi]
      · simp [hi]

theorem Csr.putEnable_putEnable (status : UInt32) (before after : Bool) :
    putEnable (putEnable status before) after = putEnable status after := by
  refine eq_of_bitAt fun i _ => ?_
  rw [bitAt_putEnable, bitAt_putEnable, bitAt_putEnable]
  by_cases hi : i = 3
  · rw [if_pos hi, if_pos hi]
  · rw [if_neg hi, if_neg hi, if_neg hi]

namespace Machine

theorem interruptsEnabled_eq_bitAt (m : Machine δ) :
    m.interruptsEnabled = bitAt (m.csrs.file.get .mstatus) 3 := by
  rw [interruptsEnabled, Csr.interruptEnable_eq]
  exact Field.isSet_bit (by decide)

/-- The hart with the global enable set or cleared, and all else as it was. -/
def withEnable (m : Machine δ) (enabled : Bool) : Machine δ :=
  m.setCsr .mstatus (Csr.putEnable (m.csrs.file.get .mstatus) enabled)

@[simp] theorem interruptsEnabled_withEnable (m : Machine δ) (enabled : Bool) :
    (m.withEnable enabled).interruptsEnabled = enabled := by
  rw [interruptsEnabled_eq_bitAt, withEnable, get_setCsr_self, Csr.bitAt_putEnable, if_pos rfl]

@[simp] theorem withEnable_withEnable (m : Machine δ) (before after : Bool) :
    (m.withEnable before).withEnable after = m.withEnable after := by
  rw [withEnable, withEnable, get_setCsr_self, setCsr_setCsr, Csr.putEnable_putEnable, withEnable]

/-- To put the enable where it is changes nothing. -/
theorem withEnable_eq_self {enabled : Bool} (h : m.interruptsEnabled = enabled) :
    m.withEnable enabled = m := by
  have hsame : Csr.putEnable (m.csrs.file.get .mstatus) enabled = m.csrs.file.get .mstatus := by
    refine eq_of_bitAt fun i _ => ?_
    rw [Csr.bitAt_putEnable, ← h, interruptsEnabled_eq_bitAt]
    by_cases hi : i = 3
    · rw [if_pos hi, hi]
    · rw [if_neg hi]
  rw [withEnable, hsame, setCsr_get]

/-- The hart with the global enable cleared. -/
def masked (m : Machine δ) : Machine δ :=
  m.setCsr .mstatus (m.csrs.file.get .mstatus &&& ~~~Csr.interruptEnable)

@[simp] theorem withEnable_masked (m : Machine δ) (enabled : Bool) :
    m.masked.withEnable enabled = m.withEnable enabled := m.withEnable_withEnable false enabled

@[simp] theorem interruptsEnabled_masked (m : Machine δ) :
    m.masked.interruptsEnabled = false := m.interruptsEnabled_withEnable false

/-- With the global enable set, interrupts are enabled. -/
theorem interruptsEnabled_setEnable (m : Machine δ) (status : UInt32) :
    (m.setCsr .mstatus (status ||| Csr.interruptEnable)).interruptsEnabled = true := by
  rw [interruptsEnabled, get_setCsr_self, Csr.interruptEnable_eq]
  exact Field.isSet_or_mask

theorem returns_update (h : m.Unrefused) {c : Csr} (hc : c.isReadOnly = false) (op : CsrUpdate) :
    Returns (platform bus) (request (.updateCsr c op)) m (.ok ())
      (m.setCsr c (op.apply (m.csrs.file.get c))) :=
  returns_request (platform_updateCsr (h.refusal hc) op)

end Machine

namespace Interrupts

/-- Every line masked, and the global enable cleared. -/
theorem returns_disableAll (h : m.Unrefused) :
    Returns (Machine.platform bus) disableAll m (.ok ()) (m.setCsr .mie 0).masked := by
  refine (Machine.returns_update h rfl (.write 0)).bind ?_
  exact Machine.returns_update (m := m.setCsr .mie 0) h rfl _

theorem returns_clearPending (h : m.Unrefused) (line : Irq) :
    Returns (Machine.platform bus) (clearPending line) m (.ok ())
      (m.setCsr .mip (m.csrs.file.get .mip &&& ~~~line.mask)) :=
  Machine.returns_update h rfl (.clearBits line.mask)

theorem returns_clearAllPending (h : m.Unrefused) :
    Returns (Machine.platform bus) clearAllPending m (.ok ()) (m.setCsr .mip 0) :=
  Machine.returns_update h rfl (.write 0)

/-- With interrupts disabled before, masking changes nothing. -/
theorem masked_eq_self (h : m.interruptsEnabled = false) : m.masked = m :=
  Machine.withEnable_eq_self h

/-- With interrupts enabled before, enabling them again undoes the masking. -/
theorem or_and_not_interruptEnable {status : UInt32}
    (h : (status &&& Csr.interruptEnable != 0) = true) :
    (status &&& ~~~Csr.interruptEnable) ||| Csr.interruptEnable = status := by
  refine eq_of_bitAt fun i _ => ?_
  rw [Csr.interruptEnable_eq] at h
  change (Field.bit 3).isSet status = true at h
  rw [Field.isSet_bit] at h
  rw [bitAt_or, bitAt_and_not, Csr.interruptEnable_eq, Field.bitAt_bit_mask]
  by_cases hi : i = 3
  · subst hi
    simp [h]
  · simp [hi]

/-- What a critical section does after its body: the enable is given back if it was set. -/
def restore (enabled : Bool) (v : α) : Program (Except DriverError α) :=
  if enabled then
    enable.bind fun
      | .error e => .done (.error e)
      | .ok () => .done (.ok v)
  else .done (.ok v)

/-- A critical section by its parts. -/
theorem criticalSection_eq (body : Program α) :
    criticalSection body = disable.bind fun
      | .error e => .done (.error e)
      | .ok enabled => body.bind (restore enabled) := by
  rw [criticalSection, bind_eq]
  refine congrArg _ (funext fun result => ?_)
  match result with
  | .error e => rfl
  | .ok false => rfl
  | .ok true => rfl

end Interrupts

/-! ## Critical sections -/

/-- The platform holds `mstatus` as a hart does that lets it be written. Nothing is said of
the other requests but that `mstatus` can still be written after them. -/
structure Platform.HoldsStatus (p : Platform (Machine δ)) : Prop where
  read : ∀ m, p (.readCsr .mstatus) m = .returned (m.csrs.file.get .mstatus) m
  update : ∀ op m, m.csrs.refusal .mstatus = none → p (.updateCsr .mstatus op) m =
    .returned (.ok ()) (m.setCsr .mstatus (op.apply (m.csrs.file.get .mstatus)))
  writable : ∀ r m v m', p r m = .returned v m' → m.csrs.refusal .mstatus = none →
    m'.csrs.refusal .mstatus = none

theorem Machine.holdsStatus_platform (bus : Bus δ) : (Machine.platform bus).HoldsStatus where
  read _ := rfl
  update op _ h := Machine.platform_updateCsr h op
  writable r m v m' h hm := by
    have hrefusals : m'.csrs.refusals = m.csrs.refusals := Machine.refusals_of_platform h
    rw [CsrUnit.refusal, hrefusals]
    exact hm

namespace Interrupts

/-- What a section exchanges when its body exchanges `body`: interrupts are masked, and
enabled again if they were enabled. -/
def sectionTrace (m : Machine δ) (body : List Exchange) : List Exchange :=
  [⟨.readCsr .mstatus, m.csrs.file.get .mstatus⟩,
    ⟨.updateCsr .mstatus (.clearBits Csr.interruptEnable), .ok ()⟩] ++ body ++
  if m.interruptsEnabled then [⟨.updateCsr .mstatus (.setBits Csr.interruptEnable), .ok ()⟩]
  else []

variable {p : Platform (Machine δ)}

/-- Masking needs no more than that `mstatus` can be written. -/
theorem completes_disable (hp : p.HoldsStatus) (h : m.csrs.refusal .mstatus = none) :
    Completes p disable m [⟨.readCsr .mstatus, m.csrs.file.get .mstatus⟩,
      ⟨.updateCsr .mstatus (.clearBits Csr.interruptEnable), .ok ()⟩]
      (.ok m.interruptsEnabled) m.masked :=
  (completes_request (hp.read m)).bind ((completes_request (hp.update _ m h)).bind_done rfl)

/-- The end of a section gives the enable back, and takes nothing from what the body left. -/
theorem completes_restore (hp : p.HoldsStatus) (h : m.csrs.refusal .mstatus = none)
    (enabled : Bool) (v : α) :
    Completes p (restore enabled v) m
      (if enabled then [⟨.updateCsr .mstatus (.setBits Csr.interruptEnable), .ok ()⟩] else [])
      (.ok v) (m.withEnable (enabled || m.interruptsEnabled)) := by
  cases enabled with
  | false => exact completes_done.mpr ⟨rfl, rfl, (Machine.withEnable_eq_self rfl).symm⟩
  | true => exact (completes_request (hp.update _ m h)).bind_done rfl

/-- **What a critical section does.** It runs its body once, from the hart with interrupts
masked. Whatever the body leaves is kept but for the enable, which is then set if the
section found it set or the body left it set. -/
theorem completes_criticalSection (hp : p.HoldsStatus) (h : m.csrs.refusal .mstatus = none)
    {body : Program α} {trace : List Exchange} {r : Except DriverError α} {m' : Machine δ} :
    Completes p (criticalSection body) m trace r m' ↔
      ∃ inner v left, Completes p body m.masked inner v left ∧ trace = sectionTrace m inner ∧
        r = .ok v ∧ m' = left.withEnable (m.interruptsEnabled || left.interruptsEnabled) := by
  have hleft : ∀ inner v left, Completes p body m.masked inner v left →
      left.csrs.refusal .mstatus = none := by
    rintro inner v left ⟨n, -, hanswered⟩
    exact hanswered.kept hp.writable h
  rw [criticalSection_eq]
  constructor
  · intro hsection
    obtain ⟨before, rest, result, masked, rfl, hdisable, hrest⟩ := completes_bind.mp hsection
    obtain ⟨rfl, rfl, rfl⟩ := hdisable.unique (completes_disable hp h)
    obtain ⟨inner, tail, v, left, rfl, hbody, htail⟩ := completes_bind.mp hrest
    obtain ⟨rfl, rfl, rfl⟩ :=
      htail.unique (completes_restore hp (hleft inner v left hbody) m.interruptsEnabled v)
    exact ⟨inner, v, left, hbody, (List.append_assoc _ _ _).symm, rfl, rfl⟩
  · rintro ⟨inner, v, left, hbody, rfl, rfl, rfl⟩
    rw [sectionTrace, List.append_assoc]
    exact (completes_disable hp h).bind
      (hbody.bind (completes_restore hp (hleft inner v left hbody) m.interruptsEnabled v))

theorem returns_criticalSection_iff (hp : p.HoldsStatus) (h : m.csrs.refusal .mstatus = none)
    {body : Program α} {r : Except DriverError α} {m' : Machine δ} :
    Returns p (criticalSection body) m r m' ↔ ∃ v left, Returns p body m.masked v left ∧
      r = .ok v ∧ m' = left.withEnable (m.interruptsEnabled || left.interruptsEnabled) := by
  constructor
  · intro hsection
    obtain ⟨trace, hsection⟩ := hsection.exists_completes
    obtain ⟨inner, v, left, hbody, -, hr, hm'⟩ := (completes_criticalSection hp h).mp hsection
    exact ⟨v, left, hbody.returns, hr, hm'⟩
  · rintro ⟨v, left, hbody, hr, hm'⟩
    obtain ⟨inner, hbody⟩ := hbody.exists_completes
    exact ((completes_criticalSection hp h).mpr ⟨inner, v, left, hbody, rfl, hr, hm'⟩).returns

theorem returns_mask (h : m.csrs.refusal .mstatus = none) :
    Returns (Machine.platform bus) disable m (.ok m.interruptsEnabled) m.masked :=
  (completes_disable (Machine.holdsStatus_platform bus) h).returns

/-- After a body that changes devices only, the section's end undoes the masking. -/
theorem returns_restore (h : m.csrs.refusal .mstatus = none) (v : α) (d : δ) :
    Returns (Machine.platform bus) (restore m.interruptsEnabled v) { m.masked with device := d }
      (.ok v) { m with device := d } := by
  have hend := (completes_restore (m := { m.masked with device := d })
    (Machine.holdsStatus_platform bus) h m.interruptsEnabled v).returns
  have hmasked : Machine.interruptsEnabled { m.masked with device := d } = false :=
    m.interruptsEnabled_masked
  have hback : Machine.withEnable { m.masked with device := d } m.interruptsEnabled
      = { m with device := d } :=
    (Machine.withEnable_masked { m with device := d } _).trans (Machine.withEnable_eq_self rfl)
  rwa [hmasked, Bool.or_false, hback] at hend

/-- A section whose body changes devices only leaves the CSRs as they were. -/
theorem returns_criticalSection {body : Program α} {v : α} {d : δ} (h : m.Unrefused)
    (hbody : Returns (Machine.platform bus) body m.masked v { m.masked with device := d }) :
    Returns (Machine.platform bus) (criticalSection body) m (.ok v) { m with device := d } := by
  rw [criticalSection_eq]
  exact (returns_mask (h.refusal rfl)).bind (hbody.bind (returns_restore (h.refusal rfl) v d))

end Interrupts

end BoardSupport
