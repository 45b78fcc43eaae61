import BoardSupport.Proofs.Spi.Blocks
import BoardSupport.Spi.Command

/-!
# Each reply belongs to its own byte

With every byte that leaves an SPI controller one comes in, and the receive FIFO hands out
the oldest. So one stale byte in it would shift every later reply. A transaction starts by
draining the FIFO, and an exchange that finds it empty leaves it empty
(`Spi.returns_exchange`). Over bytes of any number the reply to each one is then the byte
that came in with it (`Spi.returns_exchangeAll`): the one at its place in the script, and
past the script's end an echo (`SpiModel.getElem?_replies`).

`Spi.replies_aligned` says this of a transaction and of a block read, whatever state they
find the controller in.
-/

namespace BoardSupport

open Program

namespace SpiModel

/-- The replies go by place. -/
theorem getElem?_replies (miso bytes : List UInt8) (i : Nat) :
    (replies miso bytes)[i]? = bytes[i]?.map fun byte => miso.getD i byte := by
  induction bytes generalizing miso i with
  | nil => rfl
  | cons byte rest ih =>
      rw [replies]
      cases i with
      | zero => cases miso <;> rfl
      | succ i =>
          rw [List.getElem?_cons_succ, List.getElem?_cons_succ, ih]
          cases miso <;> simp

theorem map_replies {α : Type} (f : UInt8 → α) (miso bytes : List UInt8) :
    (replies miso bytes).map f = bytes.mapIdx fun i byte => f (miso.getD i byte) := by
  apply List.ext_getElem?
  intro i
  rw [List.getElem?_map, List.getElem?_mapIdx, getElem?_replies, Option.map_map]
  rfl

/-- A buffer is filled with the replies to as many zeros. -/
theorem replies_zeros (miso buffer : List UInt8) :
    replies miso (List.replicate buffer.length 0) = buffer.mapIdx fun i _ => miso.getD i 0 := by
  apply List.ext_getElem?
  intro i
  rw [getElem?_replies, List.getElem?_mapIdx, ← List.map_const', List.getElem?_map, Option.map_map]
  rfl

/-- A transaction over, in which so many bytes were exchanged. -/
theorem ended_exchanged_begun (d : SpiModel) (bytes : List UInt8) :
    (d.begun.exchanged bytes).ended =
      { d with
        txEnabled := true
        busyPolls := 0
        rx := []
        miso := d.miso.drop (min bytes.length d.miso.length)
        frames := d.frames ++ (bytes.map fun byte => ⟨byte, true, true⟩).toArray
        control := Spi.closedControl d.control
        controlTrace := d.controlTrace ++ (transferWords d.control).dropLast.toArray } := by
  have hclosed := Spi.closedControl_openControl d.control
  have htrace : d.controlTrace ++ (transferWords d.control).dropLast.toArray
      = (((d.controlTrace.push (d.control ||| Spi.softwareSelectField.mask)).push
        (Spi.openControl d.control)).push
        (Spi.openControl d.control ||| Spi.selectLevelField.mask)).push
        (Spi.closedControl d.control) := by
    apply Array.ext'
    simp [← transferTrace_eq, transferTrace]
  rw [htrace, ← List.drop_eq_drop_min, exchanged, sent, frame_begun]
  simp [ended, begun, hclosed]

end SpiModel

namespace Spi

variable (s : Spi) {m : Machine SpiModel}

/-- Bytes exchanged one after another, from an empty receive FIFO to an empty one. -/
theorem returns_exchangeAll (h : m.device.Quiet) (htx : m.device.txEnabled = true)
    (hon : m.device.rxEnabled = true) (hrx : m.device.rx = []) (bytes : List UInt8) :
    Returns SpiModel.platform (s.performAll (bytes.map .transferByte)) m
      ((SpiModel.replies m.device.miso bytes).map .byte)
      { m with device := m.device.exchanged bytes } := by
  induction bytes generalizing m with
  | nil =>
      rw [SpiModel.exchanged_nil hrx]
      exact returns_done.mpr ⟨rfl, rfl⟩
  | cons byte rest ih =>
      have hfirst := (s.returns_exchange h htx hon hrx byte).map Answer.byte
      have hrest := ih (m := { m with device := m.device.exchanged [byte] }) ⟨h.tx, h.rx⟩ htx hon
        rfl
      rw [SpiModel.exchanged_cons, SpiModel.replies, ← List.drop_one]
      exact hfirst.bind (hrest.bind (returns_done.mpr ⟨rfl, rfl⟩))

/-- **Each reply belongs to its own byte.** Let the stored status words of a master hold only
watermark bits, whatever it is busy with, whatever it has received and whatever its input
line will bring. If it is receiving, bytes exchanged in a transaction are answered each by
the byte of the script at the same place, and by themselves past its end. A block read,
receiving or not, fills its buffer with the script and past its end with the zeros that it
sends, each in a frame of its own with the slave selected, and leaves the control word as
it was. Both leave nothing received and have used up the script as far as it went. -/
theorem replies_aligned (htx : m.device.txStored &&& ~~~0xFF00 = 0)
    (hrx : m.device.rxStored &&& ~~~0xFF00 = 0)
    (hrole : effectiveRole m.device.control = .master) :
    (m.device.rxEnabled = true → ∀ bytes : List UInt8,
      Returns SpiModel.platform (s.withTransaction (s.performAll (bytes.map .transferByte))) m
        (bytes.mapIdx fun i byte => .byte (m.device.miso.getD i byte))
        { m with device := { m.device with
          txEnabled := true
          busyPolls := 0
          rx := []
          miso := m.device.miso.drop (min bytes.length m.device.miso.length)
          frames := m.device.frames ++ (bytes.map fun byte => ⟨byte, true, true⟩).toArray
          control := closedControl m.device.control
          controlTrace := m.device.controlTrace ++
            (SpiModel.transferWords m.device.control).dropLast.toArray } }) ∧
    ∀ buffer : List UInt8,
      Returns SpiModel.platform (s.readBlock buffer) m
        (.ok (), buffer.mapIdx fun i _ => m.device.miso.getD i 0)
        { m with device := { m.device with
          txEnabled := true
          rxEnabled := true
          busyPolls := 0
          rx := []
          miso := m.device.miso.drop (min buffer.length m.device.miso.length)
          frames := m.device.frames ++ (List.replicate buffer.length ⟨0, true, true⟩).toArray
          controlTrace :=
            m.device.controlTrace ++ (SpiModel.transferWords m.device.control).toArray } } := by
  have hquiet : m.device.Quiet := ⟨htx, hrx⟩
  refine ⟨?_, ?_⟩
  · intro hon bytes
    have hbody := s.returns_exchangeAll (m := { m with device := m.device.begun })
      ⟨hquiet.tx, hquiet.rx⟩ rfl hon rfl bytes
    have hwhole := s.returns_withTransaction hquiet hbody ⟨hquiet.tx, hquiet.rx⟩
    rw [SpiModel.map_replies, SpiModel.ended_exchanged_begun] at hwhole
    exact hwhole
  · intro buffer
    have hread := s.returns_readBlock hquiet hrole buffer
    rw [SpiModel.replies_zeros, SpiModel.transferred, SpiModel.selectedFrames, List.map_replicate,
      SpiModel.transferTrace_eq, List.drop_eq_drop_min] at hread
    exact hread

/-- A master that is busy for two readings and has received two bytes; its input line will
bring two others. -/
def staleMaster : Machine SpiModel :=
  { device := { control := 0x1011000, txStored := 0x400, busyPolls := 2, rx := [7, 8],
                miso := [0xAB, 0xCD] } }

/-- Three bytes are exchanged with it, and a buffer of one is read. -/
theorem replies_aligned_stale :
    let s : Spi := ⟨MemoryMap.full.spi0⟩
    (∃ left, Returns SpiModel.platform
        (s.withTransaction (s.performAll [.transferByte 1, .transferByte 2, .transferByte 3]))
        staleMaster [.byte 0xAB, .byte 0xCD, .byte 3] left ∧
      left.device.rx = [] ∧ left.device.miso = []) ∧
    ∃ left, Returns SpiModel.platform (s.readBlock [0x55]) staleMaster (.ok (), [0xAB]) left ∧
      left.device.rx = [] ∧ left.device.miso = [0xCD] ∧
      left.device.frames = #[⟨0, true, true⟩] := by
  intro s
  obtain ⟨htransaction, hread⟩ :=
    replies_aligned (m := staleMaster) s (by decide) (by decide) (by decide)
  exact ⟨⟨_, htransaction rfl [1, 2, 3], rfl, rfl⟩, _, hread [0x55], rfl, rfl, rfl⟩

end Spi

end BoardSupport
