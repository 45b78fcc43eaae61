import BoardSupport.Proofs.Spi.Protocol

/-!
# Block transfers that a slave refuses

Whether a block transfer is refused is decided by the control word alone, and before
anything is waited for, drained or enabled. So a refusal leaves the controller as it was,
but for the control word that is written back over itself. A master never refuses: both
block transfers return on it without an error, so an error means a slave and nothing else
(`blockTransfers_refused_iff`).
-/

namespace BoardSupport.Spi

open Program

variable (s : Spi) {m : Machine SpiModel}

theorem not_showsSlave (hrole : effectiveRole m.device.control = .master) :
    ¬ ShowsSlave m.device.control := by
  intro hslave
  rw [← effectiveRole_eq_slave, hrole] at hslave
  cases hslave

/-- A block write returns on every controller with quiet stored status words, with an error
if and only if the control word shows a slave. -/
theorem exists_returns_writeBlock (h : m.device.Quiet) (bytes : List UInt8) :
    ∃ result left, Returns SpiModel.platform (s.writeBlock bytes) m result left ∧
      ((∃ e, result = .error e) ↔ ShowsSlave m.device.control) := by
  cases hrole : effectiveRole m.device.control with
  | master =>
      refine ⟨_, _, s.returns_writeBlock h hrole bytes, ?_⟩
      simp [not_showsSlave hrole]
  | slave =>
      refine ⟨_, _, s.returns_writeBlock_slave hrole bytes, ?_⟩
      simp [effectiveRole_eq_slave.mp hrole]

theorem exists_returns_readBlock (h : m.device.Quiet) (buffer : List UInt8) :
    ∃ result filled left, Returns SpiModel.platform (s.readBlock buffer) m (result, filled) left ∧
      ((∃ e, result = .error e) ↔ ShowsSlave m.device.control) := by
  cases hrole : effectiveRole m.device.control with
  | master =>
      refine ⟨_, _, _, s.returns_readBlock h hrole buffer, ?_⟩
      simp [not_showsSlave hrole]
  | slave =>
      refine ⟨_, _, _, s.returns_readBlock_slave hrole buffer, ?_⟩
      simp [effectiveRole_eq_slave.mp hrole]

/-- **A refused block transfer leaves everything as it was.** On a controller whose control
word shows a slave, both block transfers are refused, whatever else its state is. The
buffer stays as it is, and so does all of the controller; the control word is written over
itself once. If the stored status words hold only watermark bits, both return on every
controller, and with an error if and only if its control word shows a slave. -/
theorem blockTransfers_refused_iff (m : Machine SpiModel) (bytes buffer : List UInt8) :
    (ShowsSlave m.device.control →
      Returns SpiModel.platform (s.writeBlock bytes) m (.error .unsupported)
        { m with device := { m.device with
          controlTrace := m.device.controlTrace.push m.device.control } } ∧
      Returns SpiModel.platform (s.readBlock buffer) m (.error .unsupported, buffer)
        { m with device := { m.device with
          controlTrace := m.device.controlTrace.push m.device.control } }) ∧
    (m.device.txStored &&& ~~~0xFF00 = 0 → m.device.rxStored &&& ~~~0xFF00 = 0 →
      (∃ result left, Returns SpiModel.platform (s.writeBlock bytes) m result left ∧
        ((∃ e, result = .error e) ↔ ShowsSlave m.device.control)) ∧
      ∃ result filled left,
        Returns SpiModel.platform (s.readBlock buffer) m (result, filled) left ∧
        ((∃ e, result = .error e) ↔ ShowsSlave m.device.control)) := by
  refine ⟨?_, ?_⟩
  · intro hslave
    have hrole := effectiveRole_eq_slave.mpr hslave
    exact ⟨s.returns_writeBlock_slave hrole bytes, s.returns_readBlock_slave hrole buffer⟩
  · intro htx hrx
    exact ⟨s.exists_returns_writeBlock ⟨htx, hrx⟩ bytes,
      s.exists_returns_readBlock ⟨htx, hrx⟩ buffer⟩

/-- A controller that software asked to be master (bit 16) and whose role is fixed (bit 21)
to slave; it is busy, holds a byte and has one to come. -/
def fixedSlave : Machine SpiModel :=
  { device := { control := 0x1211000, rxEnabled := false, txStored := 0x400, busyPolls := 3,
                rx := [7], miso := [0xAB], frames := #[⟨1, false, false⟩] } }

/-- It refuses to send two bytes and to fill a buffer, at once and without a change. -/
theorem blockTransfers_refused_iff_fixed :
    let s : Spi := ⟨MemoryMap.full.spi0⟩
    ShowsSlave fixedSlave.device.control ∧
    (∃ left, Returns SpiModel.platform (s.writeBlock [1, 2]) fixedSlave (.error .unsupported) left ∧
      left.device = { fixedSlave.device with controlTrace := #[0x1211000] }) ∧
    (∃ left, Returns SpiModel.platform (s.readBlock [9, 9]) fixedSlave
        (.error .unsupported, [9, 9]) left ∧
      left.device = { fixedSlave.device with controlTrace := #[0x1211000] }) ∧
    ∃ result left, Returns SpiModel.platform (s.writeBlock [1, 2]) fixedSlave result left ∧
      ∃ e, result = .error e := by
  intro s
  have hslave : ShowsSlave fixedSlave.device.control := by
    unfold ShowsSlave
    decide
  obtain ⟨hrefused, hiff⟩ := blockTransfers_refused_iff s fixedSlave [1, 2] [9, 9]
  obtain ⟨hwrite, hread⟩ := hrefused hslave
  obtain ⟨⟨result, left, hret, herror⟩, -⟩ := hiff (by decide) (by decide)
  exact ⟨hslave, ⟨_, hwrite, rfl⟩, ⟨_, hread, rfl⟩, result, left, hret, herror.mpr hslave⟩

end BoardSupport.Spi
