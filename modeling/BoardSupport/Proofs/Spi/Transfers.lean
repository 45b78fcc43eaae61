import BoardSupport.Proofs.Spi.Model

/-!
# What the SPI driver's transfers do

For each operation of the driver that moves bytes, the state it leaves on a block
whose stored status words are quiet, and that it returns: the waits end after the busy
polls, the drains after the stale bytes. Outside of `begun`, `ended` and the fields
named in each state, nothing changes.

`returns_writeBlock` and `returns_readBlock` put these together: a block transfer
takes the control word through the four words of a transaction and back.
-/

namespace BoardSupport

open Program
open Fifo (Side)

/-- A hart with an SPI controller as its only block. -/
abbrev SpiModel.platform : Platform (Machine SpiModel) := Machine.platform SpiModel.bus

namespace Spi

variable (s : Spi) {m : Machine SpiModel}

/-! ## Single accesses -/

theorem returns_readWord (r : Fifo.Register) (m : Machine SpiModel) :
    Returns SpiModel.platform (s.readWord r) m (m.device.load r.offset).1
      { m with device := (m.device.load r.offset).2 } := Machine.returns_read rfl

theorem returns_writeWord (r : Fifo.Register) (value : UInt32) (m : Machine SpiModel) :
    Returns SpiModel.platform (s.writeWord r value) m ()
      { m with device := m.device.store r.offset value } := Machine.returns_write rfl

theorem returns_setControlBits (f : Field) (set : Bool) (m : Machine SpiModel) :
    Returns SpiModel.platform (s.setControlBits f set) m ()
      { m with device := m.device.withBits f set } := by
  cases set with
  | true => exact s.returns_writeWord .controlSet f.mask m
  | false => exact s.returns_writeWord .controlClear f.mask m

theorem returns_enable (side : Side) (m : Machine SpiModel) :
    Returns SpiModel.platform (s.enable side) m ()
      { m with device := m.device.withEnabled side true } := by
  rw [← SpiModel.store_enable]
  exact s.returns_writeWord (.statusSet side) enableMask m

theorem returns_disable (h : m.device.Quiet) (side : Side) :
    Returns SpiModel.platform (s.disable side) m ()
      { m with device := m.device.withEnabled side false } := by
  rw [← SpiModel.store_disable h]
  exact s.returns_writeWord (.statusClear side) enableMask m

/-! ## Waiting and draining -/

theorem returns_txReady (h : m.device.Quiet) :
    Returns SpiModel.platform s.txReady m (decide (m.device.busyPolls = 0))
      { m with device := m.device.polled } := by
  rw [← SpiModel.ready_txStatus h]
  exact (s.returns_readWord (.status .tx) m).bind (returns_done.mpr ⟨rfl, rfl⟩)

theorem returns_waitTxReady (h : m.device.Quiet) :
    Returns SpiModel.platform s.waitTxReady m ()
      { m with device := { m.device with busyPolls := 0 } } := by
  have hread := s.returns_txReady h
  induction hn : m.device.busyPolls generalizing m with
  | zero =>
      have hstate : { m.device with busyPolls := 0 } = m.device.polled := by
        rw [SpiModel.polled, hn]
      rw [hn] at hread
      rw [hstate]
      exact Returns.wait_leave hread
  | succ n ih =>
      have hpolls : m.device.polled.busyPolls = n := by
        rw [SpiModel.polled, hn, Nat.add_sub_cancel]
      have hquiet : m.device.polled.Quiet := ⟨h.tx, h.rx⟩
      rw [hn] at hread
      exact Returns.wait_again hread (ih hquiet (s.returns_txReady hquiet) hpolls)

theorem returns_rxEmpty (h : m.device.Quiet) :
    Returns SpiModel.platform (s.hasFlag .rx .empty) m m.device.rx.isEmpty m := by
  rw [← SpiModel.empty_rxStatus h]
  exact ((s.returns_readWord (.status .rx) m).bind (returns_done.mpr ⟨rfl, rfl⟩)).bind
    (returns_done.mpr ⟨rfl, rfl⟩)

theorem returns_readData {byte : UInt8} {rest : List UInt8} (hrx : m.device.rx = byte :: rest) :
    Returns SpiModel.platform (s.readWord .data) m byte.toUInt32
      { m with device := { m.device with rx := rest } } := by
  have h := s.returns_readWord .data m
  rwa [SpiModel.load_data hrx] at h

theorem returns_flushRx (h : m.device.Quiet) :
    Returns SpiModel.platform s.flushRx m () { m with device := { m.device with rx := [] } } := by
  induction hrx : m.device.rx generalizing m with
  | nil =>
      have hempty := s.returns_rxEmpty h
      rw [hrx] at hempty
      refine Returns.poll_leave (hempty.bind (returns_done.mpr ⟨rfl, ?_⟩))
      rw [← hrx]
  | cons byte rest ih =>
      have hempty := s.returns_rxEmpty h
      rw [hrx] at hempty
      refine Returns.poll_again (hempty.bind ((s.returns_readData hrx).bind
        (returns_done.mpr ⟨rfl, rfl⟩))) ?_
      exact ih (m := { m with device := { m.device with rx := rest } }) ⟨h.tx, h.rx⟩ rfl

end Spi

/-! ## Bytes -/

namespace SpiModel

variable (d : SpiModel)

/-- The frame that a byte leaves in. -/
def frame (byte : UInt8) : SpiFrame := ⟨byte, d.selected, d.softwareSelect⟩

/-- Bytes sent while receiving is off, each after one reading of the transmit status. -/
def sent (bytes : List UInt8) : SpiModel :=
  { d with
    busyPolls := d.busyPolls - bytes.length
    frames := d.frames ++ (bytes.map d.frame).toArray }

/-- Bytes sent and as many taken, with none stale. -/
def exchanged (bytes : List UInt8) : SpiModel :=
  { d.sent bytes with rx := [], miso := d.miso.drop bytes.length }

/-- The bytes that come in with the bytes sent: the script, and an echo after its
end. -/
def replies : (miso bytes : List UInt8) → List UInt8
  | _, [] => []
  | miso, byte :: rest => miso.headD byte :: replies miso.tail rest

variable {d}

theorem shift_of_rx_off (htx : d.txEnabled = true) (hrx : d.rxEnabled = false) (byte : UInt8) :
    d.shift byte = { d with frames := d.frames.push (d.frame byte) } := by
  simp only [shift, htx, hrx]
  rfl

theorem shift_of_rx_on (htx : d.txEnabled = true) (hrx : d.rxEnabled = true) (byte : UInt8) :
    d.shift byte = { d with
      frames := d.frames.push (d.frame byte)
      rx := d.rx ++ [d.miso.headD byte]
      miso := d.miso.tail } := by
  simp only [shift, htx, hrx]
  rfl

theorem sent_nil : d.sent [] = d := by
  simp [sent]

theorem sent_cons (byte : UInt8) (rest : List UInt8) :
    d.sent (byte :: rest) = SpiModel.sent
      { d with busyPolls := d.busyPolls - 1, frames := d.frames.push (d.frame byte) } rest := by
  have hpolls : d.busyPolls - (rest.length + 1) = d.busyPolls - 1 - rest.length := by omega
  have hframes : d.frames ++ (d.frame byte :: rest.map d.frame).toArray
      = d.frames.push (d.frame byte) ++ (rest.map d.frame).toArray := by simp
  simp only [sent, List.length_cons, List.map_cons, hpolls, hframes]
  rfl

theorem exchanged_nil (h : d.rx = []) : d.exchanged [] = d := by
  rw [exchanged, sent_nil, List.length_nil, List.drop_zero, ← h]

/-- What came in with the byte has been taken again. -/
theorem exchanged_singleton (byte : UInt8) :
    d.exchanged [byte] = { d with
      busyPolls := d.busyPolls - 1
      frames := d.frames.push (d.frame byte)
      rx := []
      miso := d.miso.tail } := by
  rw [exchanged, sent_cons, sent_nil, ← List.drop_one]
  rfl

theorem exchanged_cons (byte : UInt8) (rest : List UInt8) :
    d.exchanged (byte :: rest) = (d.exchanged [byte]).exchanged rest := by
  rw [exchanged_singleton, exchanged, exchanged, sent_cons, List.length_cons, ← List.drop_tail]
  rfl

end SpiModel

namespace Spi

variable (s : Spi) {m : Machine SpiModel}

theorem returns_writeByte (h : m.device.Quiet) (byte : UInt8) :
    Returns SpiModel.platform (s.writeByte byte) m ()
      { m with device := m.device.polled.shift byte } := by
  have hfull : Returns SpiModel.platform (s.hasFlag .tx .full) m false
      { m with device := m.device.polled } := by
    rw [← SpiModel.full_txStatus h]
    exact ((s.returns_readWord (.status .tx) m).bind (returns_done.mpr ⟨rfl, rfl⟩)).bind
      (returns_done.mpr ⟨rfl, rfl⟩)
  have hroom : Returns SpiModel.platform
      ((s.hasFlag .tx .full).bind fun full => .done !full) m true
      { m with device := m.device.polled } :=
    hfull.bind (returns_done.mpr ⟨rfl, rfl⟩)
  rw [← SpiModel.store_data]
  refine (Returns.wait_leave hroom).bind ?_
  exact s.returns_writeWord .data byte.toUInt32 _

theorem returns_readByte (h : m.device.Quiet) {byte : UInt8} {rest : List UInt8}
    (hrx : m.device.rx = byte :: rest) :
    Returns SpiModel.platform s.readByte m byte
      { m with device := { m.device with rx := rest } } := by
  have hempty := s.returns_rxEmpty h
  rw [hrx] at hempty
  have hthere : Returns SpiModel.platform
      ((s.hasFlag .rx .empty).bind fun empty => .done !empty) m true m :=
    hempty.bind (returns_done.mpr ⟨rfl, rfl⟩)
  refine (Returns.wait_leave hthere).bind ?_
  refine (s.returns_readData hrx).bind (returns_done.mpr ⟨?_, rfl⟩)
  exact UInt8.toUInt8_toUInt32 byte

/-- What comes in is queued behind stale bytes, and the oldest is taken. -/
theorem returns_transferByte (h : m.device.Quiet) (htx : m.device.txEnabled = true)
    (hon : m.device.rxEnabled = true) (byte : UInt8) {reply : UInt8} {rest : List UInt8}
    (hrx : m.device.rx ++ [m.device.miso.headD byte] = reply :: rest) :
    Returns SpiModel.platform (s.transferByte byte) m reply
      { m with device := { m.device with
          busyPolls := m.device.busyPolls - 1
          frames := m.device.frames.push (m.device.frame byte)
          rx := rest
          miso := m.device.miso.tail } } := by
  have hwrite := s.returns_writeByte h byte
  rw [SpiModel.shift_of_rx_on (d := m.device.polled) htx hon] at hwrite
  refine hwrite.bind ?_
  exact s.returns_readByte (m := { m with device := { m.device with
    busyPolls := m.device.busyPolls - 1
    frames := m.device.frames.push (m.device.frame byte)
    rx := m.device.rx ++ [m.device.miso.headD byte]
    miso := m.device.miso.tail } }) ⟨h.tx, h.rx⟩ hrx

theorem returns_writeBytes (h : m.device.Quiet) (htx : m.device.txEnabled = true)
    (hoff : m.device.rxEnabled = false) (bytes : List UInt8) :
    Returns SpiModel.platform (s.writeBytes bytes) m ()
      { m with device := m.device.sent bytes } := by
  induction bytes generalizing m with
  | nil =>
      rw [SpiModel.sent_nil]
      exact returns_done.mpr ⟨rfl, rfl⟩
  | cons byte rest ih =>
      have hwrite := s.returns_writeByte h byte
      rw [SpiModel.shift_of_rx_off (d := m.device.polled) htx hoff] at hwrite
      rw [SpiModel.sent_cons]
      exact hwrite.bind (ih ⟨h.tx, h.rx⟩ htx hoff)

/-- Where nothing is stale, the byte that is taken came in with the byte sent, and nothing
is left behind it. -/
theorem returns_exchange (h : m.device.Quiet) (htx : m.device.txEnabled = true)
    (hon : m.device.rxEnabled = true) (hrx : m.device.rx = []) (byte : UInt8) :
    Returns SpiModel.platform (s.transferByte byte) m (m.device.miso.headD byte)
      { m with device := m.device.exchanged [byte] } := by
  rw [SpiModel.exchanged_singleton]
  exact s.returns_transferByte h htx hon byte (by rw [hrx]; rfl)

theorem returns_readBytes (h : m.device.Quiet) (htx : m.device.txEnabled = true)
    (hon : m.device.rxEnabled = true) (hrx : m.device.rx = []) (count : Nat) :
    Returns SpiModel.platform (s.readBytes count) m
      (SpiModel.replies m.device.miso (List.replicate count 0))
      { m with device := m.device.exchanged (List.replicate count 0) } := by
  induction count generalizing m with
  | zero =>
      rw [List.replicate_zero, SpiModel.exchanged_nil hrx]
      exact returns_done.mpr ⟨rfl, rfl⟩
  | succ count ih =>
      have hrest := ih (m := { m with device := m.device.exchanged [0] }) ⟨h.tx, h.rx⟩ htx hon rfl
      rw [List.replicate_succ, SpiModel.exchanged_cons, SpiModel.replies, ← List.drop_one]
      exact (s.returns_exchange h htx hon hrx 0).bind (hrest.bind (returns_done.mpr ⟨rfl, rfl⟩))

end Spi

/-! ## Transactions -/

namespace SpiModel

variable (d : SpiModel)

def begun : SpiModel :=
  { d with
    busyPolls := 0
    rx := []
    txEnabled := true
    control := Spi.openControl d.control
    controlTrace := (d.controlTrace.push (d.control ||| Spi.softwareSelectField.mask)).push
      (Spi.openControl d.control) }

def ended : SpiModel :=
  { d with
    busyPolls := 0
    control := Spi.closedControl d.control
    controlTrace := (d.controlTrace.push (d.control ||| Spi.selectLevelField.mask)).push
      (Spi.closedControl d.control) }

theorem frame_begun : d.begun.frame = fun byte => ⟨byte, true, true⟩ := by
  funext byte
  have hlevel : Spi.selectLevelField.isSet d.begun.control = false :=
    Spi.selectLevel_openControl d.control
  have hsoftware : Spi.softwareSelectField.isSet d.begun.control = true :=
    Spi.softwareSelect_openControl d.control
  rw [frame, selected, softwareSelect, hlevel, hsoftware]
  rfl

end SpiModel

namespace Spi

variable (s : Spi) {m : Machine SpiModel}

theorem returns_beginTransaction (h : m.device.Quiet) :
    Returns SpiModel.platform s.beginTransaction m () { m with device := m.device.begun } := by
  refine (s.returns_waitTxReady h).bind ?_
  refine (s.returns_flushRx (m := { m with device := { m.device with busyPolls := 0 } })
    ⟨h.tx, h.rx⟩).bind ?_
  refine (s.returns_enable .tx _).bind ?_
  exact (s.returns_setControlBits softwareSelectField true _).bind
    (s.returns_setControlBits selectLevelField false _)

theorem returns_endTransaction (h : m.device.Quiet) :
    Returns SpiModel.platform s.endTransaction m () { m with device := m.device.ended } := by
  refine (s.returns_waitTxReady h).bind ?_
  exact (s.returns_setControlBits selectLevelField true _).bind
    (s.returns_setControlBits softwareSelectField false _)

/-- A transaction around a program that returns with the stored status words quiet. -/
theorem returns_withTransaction {α : Type} {body : Program α} {v : α} {m' : Machine SpiModel}
    (h : m.device.Quiet)
    (hbody : Returns SpiModel.platform body { m with device := m.device.begun } v m')
    (h' : m'.device.Quiet) :
    Returns SpiModel.platform (s.withTransaction body) m v
      { m' with device := m'.device.ended } :=
  (s.returns_beginTransaction h).bind
    (hbody.bind ((s.returns_endTransaction h').bind (returns_done.mpr ⟨rfl, rfl⟩)))

/-- A master runs the body and puts the control word back. -/
theorem returns_asMaster {α : Type} {body : Program α} {v : α} {m' : Machine SpiModel}
    (hrole : effectiveRole m.device.control = .master) (warning : String)
    (hbody : Returns SpiModel.platform body m v m') :
    Returns SpiModel.platform (s.asMaster warning body) m (.ok v)
      { m' with device := m'.device.putControl m.device.control } := by
  have hcontrol := s.returns_readWord .control m
  have hmaster : Returns SpiModel.platform s.isMaster m true m := by
    refine (hcontrol.bind (returns_done.mpr ⟨rfl, rfl⟩)).bind (returns_done.mpr ⟨?_, rfl⟩)
    show (effectiveRole m.device.control == .master) = true
    rw [hrole]
    rfl
  refine hcontrol.bind (hmaster.bind ?_)
  refine hbody.bind ?_
  exact (s.returns_writeWord .control m.device.control m').bind (returns_done.mpr ⟨rfl, rfl⟩)

theorem returns_report (level : LogLevel) (target : LogTarget) (text : String)
    (m : Machine SpiModel) :
    Returns SpiModel.platform (report level target (pure text)) m () m := by
  have hfilter : Returns SpiModel.platform (request .logFilter) m m.filter m := returns_request rfl
  refine hfilter.bind ?_
  cases hheard : m.filter.admits level with
  | true => exact returns_request rfl
  | false => exact returns_done.mpr ⟨rfl, rfl⟩

/-- A slave does nothing but put the control word back. -/
theorem returns_asMaster_slave {α : Type} {body : Program α}
    (hrole : effectiveRole m.device.control = .slave) (warning : String) :
    Returns SpiModel.platform (s.asMaster warning body) m (.error .unsupported)
      { m with device := m.device.putControl m.device.control } := by
  have hcontrol := s.returns_readWord .control m
  have hmaster : Returns SpiModel.platform s.isMaster m false m := by
    refine (hcontrol.bind (returns_done.mpr ⟨rfl, rfl⟩)).bind (returns_done.mpr ⟨?_, rfl⟩)
    show (effectiveRole m.device.control == .master) = false
    rw [hrole]
    rfl
  refine hcontrol.bind (hmaster.bind ?_)
  refine (returns_report .warn .spi warning m).bind ?_
  exact (s.returns_writeWord .control m.device.control m).bind (returns_done.mpr ⟨rfl, rfl⟩)

end Spi

/-! ## Block transfers -/

namespace SpiModel

variable (d : SpiModel)

/-- The control words that a block transfer writes. -/
def transferTrace (c : UInt32) : List UInt32 :=
  [c ||| Spi.softwareSelectField.mask, Spi.openControl c,
    Spi.openControl c ||| Spi.selectLevelField.mask, Spi.closedControl c, c]

/-- The frames of bytes sent while software selects the slave. -/
def selectedFrames (bytes : List UInt8) : Array SpiFrame :=
  (bytes.map fun byte => ⟨byte, true, true⟩).toArray

/-- A block transfer over, with `bytes` sent and `taken` bytes of the script used up. -/
def transferred (bytes : List UInt8) (taken : Nat) : SpiModel :=
  { d with
    txEnabled := true
    rxEnabled := true
    busyPolls := 0
    rx := []
    miso := d.miso.drop taken
    frames := d.frames ++ selectedFrames bytes
    controlTrace := d.controlTrace ++ (transferTrace d.control).toArray }

theorem append_transferTrace (trace : Array UInt32) (c : UInt32) :
    trace ++ (transferTrace c).toArray
      = ((((trace.push (c ||| Spi.softwareSelectField.mask)).push (Spi.openControl c)).push
        (Spi.openControl c ||| Spi.selectLevelField.mask)).push (Spi.closedControl c)).push c := by
  apply Array.ext'
  simp [transferTrace]

theorem transferred_of_sent (bytes : List UInt8) :
    (((d.begun.withEnabled .rx false).sent bytes).ended.withEnabled .rx true).putControl d.control
      = d.transferred bytes 0 := by
  have hframe : (d.begun.withEnabled .rx false).frame = fun byte => ⟨byte, true, true⟩ :=
    d.frame_begun
  have hclosed := Spi.closedControl_openControl d.control
  simp only [transferred, selectedFrames, append_transferTrace, sent, hframe]
  simp [putControl, withEnabled, ended, begun, hclosed]

theorem transferred_of_exchanged (bytes : List UInt8) :
    ((d.begun.withEnabled .rx true).exchanged bytes).ended.putControl d.control
      = d.transferred bytes bytes.length := by
  have hframe : (d.begun.withEnabled .rx true).frame = fun byte => ⟨byte, true, true⟩ :=
    d.frame_begun
  have hclosed := Spi.closedControl_openControl d.control
  simp only [transferred, selectedFrames, append_transferTrace, exchanged, sent, hframe]
  simp [putControl, withEnabled, ended, begun, hclosed]

end SpiModel

namespace Spi

variable (s : Spi) {m : Machine SpiModel}

/-- **A block leaves byte by byte, in one transaction.** Whatever the block was busy
with and whatever was left in its receive FIFO. -/
theorem returns_writeBlock (h : m.device.Quiet)
    (hrole : effectiveRole m.device.control = .master) (bytes : List UInt8) :
    Returns SpiModel.platform (s.writeBlock bytes) m (.ok ())
      { m with device := m.device.transferred bytes 0 } := by
  have hbody : Returns SpiModel.platform (do
        s.beginTransaction
        s.disable .rx
        s.writeBytes bytes
        s.endTransaction
        s.enable .rx) m ()
      { m with device :=
        ((m.device.begun.withEnabled .rx false).sent bytes).ended.withEnabled .rx true } := by
    refine (s.returns_beginTransaction h).bind ?_
    refine (s.returns_disable (m := { m with device := m.device.begun }) ⟨h.tx, h.rx⟩ .rx).bind ?_
    refine (s.returns_writeBytes (m := { m with device := m.device.begun.withEnabled .rx false })
      ⟨h.tx, h.rx⟩ rfl rfl bytes).bind ?_
    refine (s.returns_endTransaction (m := { m with
      device := (m.device.begun.withEnabled .rx false).sent bytes }) ⟨h.tx, h.rx⟩).bind ?_
    exact s.returns_enable .rx _
  rw [← SpiModel.transferred_of_sent]
  exact s.returns_asMaster hrole _ hbody

/-- **A block comes in byte by byte, in one transaction**, with nothing stale in it. -/
theorem returns_readBlock (h : m.device.Quiet)
    (hrole : effectiveRole m.device.control = .master) (buffer : List UInt8) :
    Returns SpiModel.platform (s.readBlock buffer) m
      (.ok (), SpiModel.replies m.device.miso (List.replicate buffer.length 0))
      { m with device :=
        m.device.transferred (List.replicate buffer.length 0) buffer.length } := by
  have hbody : Returns SpiModel.platform (do
        s.beginTransaction
        s.enable .rx
        let bytes ← s.readBytes buffer.length
        s.endTransaction
        return bytes) m (SpiModel.replies m.device.miso (List.replicate buffer.length 0))
      { m with device := ((m.device.begun.withEnabled .rx true).exchanged
        (List.replicate buffer.length 0)).ended } := by
    refine (s.returns_beginTransaction h).bind ?_
    refine (s.returns_enable .rx { m with device := m.device.begun }).bind ?_
    refine (s.returns_readBytes (m := { m with device := m.device.begun.withEnabled .rx true })
      ⟨h.tx, h.rx⟩ rfl rfl rfl buffer.length).bind ?_
    refine (s.returns_endTransaction (m := { m with
      device := (m.device.begun.withEnabled .rx true).exchanged
        (List.replicate buffer.length 0) }) ⟨h.tx, h.rx⟩).bind ?_
    exact returns_done.mpr ⟨rfl, rfl⟩
  have hfinal := m.device.transferred_of_exchanged (List.replicate buffer.length 0)
  rw [List.length_replicate] at hfinal
  rw [← hfinal]
  exact (s.returns_asMaster hrole _ hbody).bind (returns_done.mpr ⟨rfl, rfl⟩)

/-- A slave refuses to send. -/
theorem returns_writeBlock_slave (hrole : effectiveRole m.device.control = .slave)
    (bytes : List UInt8) :
    Returns SpiModel.platform (s.writeBlock bytes) m (.error .unsupported)
      { m with device := m.device.putControl m.device.control } :=
  s.returns_asMaster_slave hrole _

/-- A slave refuses to fill a buffer, and leaves it as it is. -/
theorem returns_readBlock_slave (hrole : effectiveRole m.device.control = .slave)
    (buffer : List UInt8) :
    Returns SpiModel.platform (s.readBlock buffer) m (.error .unsupported, buffer)
      { m with device := m.device.putControl m.device.control } :=
  (s.returns_asMaster_slave hrole _).bind (returns_done.mpr ⟨rfl, rfl⟩)

end Spi

end BoardSupport
