import BoardSupport.Device.Machine
import BoardSupport.Program.Access
import BoardSupport.Program.Record
import BoardSupport.Proofs.Program.Steps

/-!
# Register accesses on a machine

What one read and one write do to a machine, as a run that returns and as the
states it passes through; the exchange that a recording platform notes; and when a
count of readings has room for another.
-/

namespace BoardSupport

open Program

/-! ## On a machine -/

namespace Machine

variable {δ : Type} {bus : Bus δ} {b : Block} {offset : Nat} {m : Machine δ}

theorem platform_load {value : UInt32} {d : δ}
    (h : bus.load b offset m.device = .ok (value, d)) :
    platform bus (.load b offset) m = .returned value { m with device := d } := by
  simp only [platform, h]

theorem platform_store {value : UInt32} {d : δ}
    (h : bus.store b offset value m.device = .ok d) :
    platform bus (.store b offset value) m = .returned () { m with device := d } := by
  simp only [platform, h]

theorem platform_load_error {c : Fault} (h : bus.load b offset m.device = .error c) :
    platform bus (.load b offset) m = .stopped (.fault c) m := by
  simp only [platform, h]

theorem platform_store_error {value : UInt32} {c : Fault}
    (h : bus.store b offset value m.device = .error c) :
    platform bus (.store b offset value) m = .stopped (.fault c) m := by
  simp only [platform, h]

theorem platform_updateCsr {c : Csr} (h : m.csrs.refusal c = none) (op : CsrUpdate) :
    platform bus (.updateCsr c op) m
      = .returned (.ok ()) (m.setCsr c (op.apply (m.csrs.file.get c))) := by
  simp only [platform, CsrUnit.update, h, setCsr]

theorem platform_updateCsr_refused {c : Csr} {e : DriverError} (h : m.csrs.refusal c = some e)
    (op : CsrUpdate) : platform bus (.updateCsr c op) m = .returned (.error e) m := by
  simp only [platform, CsrUnit.update, h]

theorem exists_of_platform_load {value : UInt32} {m' : Machine δ}
    (h : platform bus (.load b offset) m = .returned value m') :
    ∃ d, bus.load b offset m.device = .ok (value, d) ∧ m' = { m with device := d } := by
  cases hl : bus.load b offset m.device with
  | ok vd =>
      rw [platform_load hl] at h
      cases h
      exact ⟨vd.2, rfl, rfl⟩
  | error c =>
      rw [platform_load_error hl] at h
      cases h

theorem exists_of_platform_store {value : UInt32} {m' : Machine δ}
    (h : platform bus (.store b offset value) m = .returned () m') :
    ∃ d, bus.store b offset value m.device = .ok d ∧ m' = { m with device := d } := by
  cases hl : bus.store b offset value m.device with
  | ok d =>
      rw [platform_store hl] at h
      cases h
      exact ⟨d, rfl, rfl⟩
  | error c =>
      rw [platform_store_error hl] at h
      cases h

/-- An access depends on the devices only, and changes nothing else. -/
theorem platform_access (bus : Bus δ) {r : Request} (hr : r.isAccess = true) (m m' : Machine δ)
    (d : δ) :
    (∃ v d', platform bus r { m with device := d } = .returned v { m with device := d' } ∧
      platform bus r { m' with device := d } = .returned v { m' with device := d' }) ∨
    ∃ c, platform bus r { m with device := d } = .stopped c { m with device := d } ∧
      platform bus r { m' with device := d } = .stopped c { m' with device := d } := by
  cases r with
  | load b offset =>
      cases hl : bus.load b offset d with
      | ok vd => exact Or.inl ⟨vd.1, vd.2, platform_load hl, platform_load hl⟩
      | error c => exact Or.inr ⟨.fault c, platform_load_error hl, platform_load_error hl⟩
  | store b offset value =>
      cases hl : bus.store b offset value d with
      | ok d' => exact Or.inl ⟨(), d', platform_store hl, platform_store hl⟩
      | error c => exact Or.inr ⟨.fault c, platform_store_error hl, platform_store_error hl⟩
  | _ => cases hr

/-- What is no access leaves the devices alone. -/
theorem device_of_platform {r : Request} (hr : r.isAccess = false) {v : r.Reply} {m' : Machine δ}
    (h : platform bus r m = .returned v m') : m'.device = m.device := by
  cases r with
  | load b offset | store b offset value => cases hr
  | readCsr c =>
      cases h
      unfold afterCsrRead
      split
      · rfl
      · rfl
  | updateCsr c op =>
      cases hc : m.csrs.refusal c with
      | none =>
          rw [platform_updateCsr hc] at h
          cases h
          rfl
      | some e =>
          rw [platform_updateCsr_refused hc] at h
          cases h
          rfl
  | waitForInterrupt => cases h
  | _ =>
      cases h
      rfl

theorem returns_read {value : UInt32} {d : δ}
    (h : bus.load b offset m.device = .ok (value, d)) :
    Returns (platform bus) (b.read offset) m value { m with device := d } :=
  returns_request (platform_load h)

theorem returns_write {value : UInt32} {d : δ}
    (h : bus.store b offset value m.device = .ok d) :
    Returns (platform bus) (b.write offset value) m () { m with device := d } :=
  returns_request (platform_store h)

theorem throughout_read {P : Machine δ → Prop} (hm : P m)
    (h : ∀ value d, bus.load b offset m.device = .ok (value, d) → P { m with device := d }) :
    Throughout (platform bus) (b.read offset) m P := by
  refine Throughout.ask hm fun v t hr => Throughout.done ?_
  obtain ⟨d, hd, rfl⟩ := exists_of_platform_load hr
  exact h v d hd

theorem throughout_write {P : Machine δ → Prop} {value : UInt32} (hm : P m)
    (h : ∀ d, bus.store b offset value m.device = .ok d → P { m with device := d }) :
    Throughout (platform bus) (b.write offset value) m P := by
  refine Throughout.ask hm fun v t hr => Throughout.done ?_
  obtain ⟨d, hd, rfl⟩ := exists_of_platform_store hr
  exact h d hd

end Machine

/-! ## On a recording platform -/

namespace Recorded

variable {σ : Type}

/-- The requests made so far, oldest first. -/
def requests (s : Recorded σ) : List Request := s.trace.toList.map Exchange.request

end Recorded

theorem Platform.recorded_apply {σ : Type} {p : Platform σ} {r : Request} {s : Recorded σ}
    {v : r.Reply} {t : σ} (h : p r s.inner = .returned v t) :
    p.recorded r s = .returned v ⟨t, s.trace.push ⟨r, v⟩⟩ := by
  simp only [recorded, h]

theorem Platform.recorded_stopped {σ : Type} {p : Platform σ} {r : Request} {s : Recorded σ}
    {c : Stop} {t : σ} (h : p r s.inner = .stopped c t) :
    p.recorded r s = .stopped c ⟨t, s.trace⟩ := by
  simp only [recorded, h]

/-- A recorded read is the read, with its request noted at the end. -/
theorem Machine.returns_recorded_read {δ : Type} {bus : Bus δ} {b : Block} {offset : Nat}
    {s : Recorded (Machine δ)} {value : UInt32} {d : δ}
    (h : bus.load b offset s.inner.device = .ok (value, d)) :
    ∃ t : Recorded (Machine δ), Returns (platform bus).recorded (b.read offset) s value t ∧
      t.inner = { s.inner with device := d } ∧
      t.requests = s.requests ++ [.load b offset] := by
  refine ⟨_, returns_request (Platform.recorded_apply (platform_load h)), rfl, ?_⟩
  simp [Recorded.requests]

/-! ## Counted readings -/

/-- A block that counts its readings in a word can count one more, unless the count is the
last. -/
theorem count_ne_last_iff {count : UInt32} :
    count ≠ 0xFFFFFFFF ↔ count.toNat + 1 < 0x100000000 := by
  have hlt := count.toNat_lt
  have hlast : (0xFFFFFFFF : UInt32).toNat = 0xFFFFFFFF := rfl
  rw [ne_eq, ← UInt32.toNat_inj, hlast]
  omega

theorem toNat_count_succ {count : UInt32} (h : count.toNat + 1 < 0x100000000) :
    (count + 1).toNat = count.toNat + 1 := by
  have hsum : count.toNat + (1 : UInt32).toNat < 2 ^ 32 := h
  rw [UInt32.toNat_add, Nat.mod_eq_of_lt hsum]
  rfl

end BoardSupport
