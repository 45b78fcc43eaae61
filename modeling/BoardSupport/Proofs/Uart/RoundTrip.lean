import BoardSupport.Proofs.Uart.Queries

/-!
# A block sent and read back

On a UART with its line wired back, a block that is written comes back as far as the
receive FIFO has room for it. Writing takes one reading of the transmit status for each
byte, and before the first of them one for each time that the FIFO is still full
(`Uart.completes_writeBlock`, with all its exchanges). A read of as many bytes as were
received takes them in their order and leaves none (`Uart.returns_readBlock`).

`Uart.writeBlock_readBlock` puts the two together, for blocks of any length and any bytes
that had been received before.
-/

namespace BoardSupport

open Program
open Fifo (Flag Status)

/-! ## Writing -/

namespace UartModel

/-- The UART after a block was written to it: each byte was sent and counted, and the wait
for the first one has used up the readings for which the FIFO was full. -/
def written (d : UartModel) (bytes : List UInt8) : UartModel :=
  { d.sendAll bytes with
    fullPolls := if bytes = [] then d.fullPolls else 0
    writes := d.writes + bytes.length }

/-- What is written, in terms of the bytes alone. -/
theorem written_eq (d : UartModel) (bytes : List UInt8) :
    d.written bytes =
      { d with
        rx := d.rx ++ d.arrivals bytes
        sent := d.sent ++ bytes.toArray
        rxStored := if d.Refuses bytes then d.rxStored ||| Flag.overflow.mask else d.rxStored
        fullPolls := if bytes = [] then d.fullPolls else 0
        writes := d.writes + bytes.length } := by
  rw [written, sendAll_eq]

@[simp] theorem txStored_written (d : UartModel) (bytes : List UInt8) :
    (d.written bytes).txStored = d.txStored := by
  rw [written_eq]

theorem Drains.written {d : UartModel} (h : d.Drains) (bytes : List UInt8) :
    (d.written bytes).Drains := by
  rw [Drains, txStored_written]
  exact h

/-- A byte that is written once there is room. -/
theorem store_written (d : UartModel) (byte : UInt8) :
    { d with fullPolls := 0 }.store Fifo.Register.data.offset byte.toUInt32 = d.written [byte] := by
  rw [store_data, UInt8.toUInt8_toUInt32, written, sendAll_eq, sendAll_eq]
  rfl

theorem written_cons (d : UartModel) (byte : UInt8) (rest : List UInt8) :
    (d.written [byte]).written rest = d.written (byte :: rest) := by
  have hpolls : (if rest = [] then (d.written [byte]).fullPolls else 0) = 0 := ite_self 0
  have hwrites : d.writes + 1 + rest.length = d.writes + (rest.length + 1) := by omega
  rw [written, hpolls]
  show ({ { d.sendAll [byte] with fullPolls := 0, writes := d.writes + 1 }.sendAll rest with
    fullPolls := 0, writes := d.writes + 1 + rest.length } : UartModel) = _
  rw [sendAll_counted, hwrites]
  rfl

end UartModel

namespace Uart

variable (u : Uart) {m : Machine UartModel}

/-- The exchanges that write a block: each byte after a reading that shows room, the first
one also after those that show the FIFO full. -/
def writeTrace (b : Block) (txStored : UInt32) : (polls : Nat) → List UInt8 → List Exchange
  | _, [] => []
  | polls, byte :: rest =>
    roomReadings b txStored polls ++ [.wrote b .data byte.toUInt32] ++ writeTrace b txStored 0 rest

/-- Of its exchanges, a wait for room and a byte are so many readings of the status. -/
theorem readOf_roomReadings (b : Block) (txStored : UInt32) (polls : Nat) :
    ((roomReadings b txStored polls).filterMap (Exchange.readOf? b (.status .tx))).length
      = polls + 1 := by
  rw [roomReadings, List.filterMap_append, List.filterMap_replicate, Exchange.readOf?_read,
    if_pos rfl]
  simp

theorem wroteTo_roomReadings (b : Block) (txStored : UInt32) (polls : Nat) :
    (roomReadings b txStored polls).filterMap (Exchange.wroteTo? b .data) = [] := by
  rw [roomReadings, List.filterMap_append, List.filterMap_replicate, Exchange.wroteTo?_read]
  simp [List.filterMap_cons]

/-- How often the transmit status is read. -/
theorem readOf_writeTrace (b : Block) (txStored : UInt32) (polls : Nat) (bytes : List UInt8) :
    ((writeTrace b txStored polls bytes).filterMap (Exchange.readOf? b (.status .tx))).length
      = if bytes = [] then 0 else polls + bytes.length := by
  induction bytes generalizing polls with
  | nil => rfl
  | cons byte rest ih =>
      have hrest : (if rest = [] then 0 else 0 + rest.length) = rest.length := by
        cases rest with
        | nil => rfl
        | cons _ _ => rw [if_neg (List.cons_ne_nil _ _), Nat.zero_add]
      rw [if_neg (List.cons_ne_nil byte rest), writeTrace, List.filterMap_append,
        List.filterMap_append, List.length_append, List.length_append, ih, hrest,
        readOf_roomReadings, List.filterMap_cons_none Exchange.readOf?_wrote]
      simp only [List.filterMap_nil, List.length_nil, List.length_cons]
      omega

/-- What is written to the data register: the bytes, in order. -/
theorem wroteTo_writeTrace (b : Block) (txStored : UInt32) (polls : Nat) (bytes : List UInt8) :
    (writeTrace b txStored polls bytes).filterMap (Exchange.wroteTo? b .data)
      = bytes.map UInt8.toUInt32 := by
  induction bytes generalizing polls with
  | nil => rfl
  | cons byte rest ih =>
      rw [writeTrace, List.filterMap_append, List.filterMap_append, ih, wroteTo_roomReadings,
        List.filterMap_cons, Exchange.wroteTo?_wrote, if_pos rfl]
      rfl

theorem completes_writeByte (h : m.device.Drains) (byte : UInt8) :
    Completes (Machine.platform UartModel.bus) (u.writeByte byte) m
      (roomReadings u.block m.device.txStored m.device.fullPolls ++
        [.wrote u.block .data byte.toUInt32]) ()
      { m with device := m.device.written [byte] } := by
  have hwrite := u.completes_writeWord .data byte.toUInt32
    { m with device := { m.device with fullPolls := 0 } }
  rw [UartModel.store_written] at hwrite
  exact (u.completes_waitRoom h).bind hwrite

/-- A block is written, whatever its length, and leaves the UART as `written` says. -/
theorem completes_writeBlock (h : m.device.Drains) (bytes : List UInt8) :
    Completes (Machine.platform UartModel.bus) (u.writeBlock bytes) m
      (writeTrace u.block m.device.txStored m.device.fullPolls bytes) ()
      { m with device := m.device.written bytes } := by
  induction bytes generalizing m with
  | nil => exact completes_done.mpr ⟨rfl, rfl, rfl⟩
  | cons byte rest ih =>
      have hrest := ih (m := { m with device := m.device.written [byte] }) (h.written [byte])
      rw [UartModel.written_cons, UartModel.txStored_written] at hrest
      exact (u.completes_writeByte h byte).bind hrest

/-! ## Reading -/

end Uart

namespace UartModel

/-- The empty flag shows that nothing was received, where it is not among the stored bits. -/
theorem empty_rxStatus {d : UartModel} (h : bitAt d.rxStored 17 = false) :
    (⟨d.rxStatus⟩ : Status).has .empty = d.rx.isEmpty := by
  rw [rxStatus, empty_statusWord h]
  cases d.rx with
  | nil => rfl
  | cons byte rest => rfl

/-- Writing does not touch the stored empty flag. -/
theorem bitAt_rxStored_written (d : UartModel) (bytes : List UInt8) :
    bitAt (d.written bytes).rxStored 17 = bitAt d.rxStored 17 := by
  rw [written_eq]
  show bitAt (if d.Refuses bytes then d.rxStored ||| Flag.overflow.mask else d.rxStored) 17 = _
  rw [bitAt_ite_or, Flag.mask_eq, Field.bitAt_bit_mask]
  simp [Flag.position]

end UartModel

namespace Uart

variable (u : Uart) {m : Machine UartModel}

theorem returns_rxEmpty (h : bitAt m.device.rxStored 17 = false) :
    Returns (Machine.platform UartModel.bus) (u.hasFlag .rx .empty) m m.device.rx.isEmpty m := by
  rw [← UartModel.empty_rxStatus h]
  exact u.returns_rxFlag m .empty

/-- The oldest byte is taken at once. -/
theorem returns_tryReadByte (h : bitAt m.device.rxStored 17 = false) {byte : UInt8}
    {rest : List UInt8} (hrx : m.device.rx = byte :: rest) :
    Returns (Machine.platform UartModel.bus) u.tryReadByte m (some byte)
      { m with device := { m.device with rx := rest } } := by
  have hempty := u.returns_rxEmpty h
  have hdata := u.returns_readWord .data m
  rw [UartModel.load_data hrx] at hdata
  rw [hrx] at hempty
  have hbyte := hdata.map fun word : UInt32 => some word.toUInt8
  simp only [UInt8.toUInt8_toUInt32] at hbyte
  exact hempty.bind hbyte

theorem returns_readByte (h : bitAt m.device.rxStored 17 = false) {byte : UInt8}
    {rest : List UInt8} (hrx : m.device.rx = byte :: rest) :
    Returns (Machine.platform UartModel.bus) u.readByte m byte
      { m with device := { m.device with rx := rest } } :=
  Returns.poll_leave (u.returns_tryReadByte h hrx)

/-- A read of all that was received takes it in order and leaves nothing. -/
theorem returns_readBlock (h : bitAt m.device.rxStored 17 = false) :
    Returns (Machine.platform UartModel.bus) (u.readBlock m.device.rx.length) m m.device.rx
      { m with device := { m.device with rx := [] } } := by
  induction hrx : m.device.rx generalizing m with
  | nil =>
      refine returns_done.mpr ⟨rfl, ?_⟩
      rw [← hrx]
  | cons byte rest ih =>
      have hrest := ih (m := { m with device := { m.device with rx := rest } }) h rfl
      exact (u.returns_readByte h hrx).bind (hrest.bind (returns_done.mpr ⟨rfl, rfl⟩))

/-! ## Both -/

/-- **A block comes back as far as there is room.** With the line wired back and no stored
bit that shows the transmit FIFO full or the receive FIFO empty, any block is written. It
takes one reading of the transmit status for each byte and one for each time that the FIFO
was still full. The bytes are sent and arrive behind those received before until 1024 are
there; if one is left over, the overflow flag is up. What is there is then read back in
order. -/
theorem writeBlock_readBlock (hfull : bitAt m.device.txStored 16 = false)
    (hempty : bitAt m.device.rxStored 17 = false) (hloop : m.device.loopback = true)
    (bytes : List UInt8) :
    ∃ trace d, Completes (Machine.platform UartModel.bus) (u.writeBlock bytes) m trace ()
        { m with device := d } ∧
      (trace.filterMap (Exchange.readOf? u.block (.status .tx))).length
        = (if bytes = [] then 0 else m.device.fullPolls + bytes.length) ∧
      trace.filterMap (Exchange.wroteTo? u.block .data) = bytes.map UInt8.toUInt32 ∧
      d = { m.device with
        rx := m.device.rx ++ bytes.take (1024 - m.device.rx.length)
        sent := m.device.sent ++ bytes.toArray
        rxStored := if 1024 - m.device.rx.length < bytes.length
          then m.device.rxStored ||| 0x80000 else m.device.rxStored
        fullPolls := if bytes = [] then m.device.fullPolls else 0
        writes := m.device.writes + bytes.length } ∧
      Returns (Machine.platform UartModel.bus) (u.readBlock d.rx.length) { m with device := d }
        d.rx { m with device := { d with rx := [] } } ∧
      (m.device.rx = [] → bytes.length ≤ 1024 → d.rx = bytes) := by
  have harrivals : m.device.arrivals bytes = bytes.take (1024 - m.device.rx.length) := if_pos hloop
  have hrefuses : m.device.Refuses bytes ↔ 1024 - m.device.rx.length < bytes.length :=
    and_iff_right hloop
  refine ⟨_, m.device.written bytes, u.completes_writeBlock hfull bytes,
    readOf_writeTrace _ _ _ _, wroteTo_writeTrace _ _ _ _, ?_, ?_, fun hnil hlength => ?_⟩
  · rw [UartModel.written_eq, harrivals]
    simp only [hrefuses]
    rfl
  · refine u.returns_readBlock (m := { m with device := m.device.written bytes }) ?_
    exact (m.device.bitAt_rxStored_written bytes).trans hempty
  · rw [UartModel.written_eq, harrivals, hnil]
    exact List.take_of_length_le hlength

/-- A UART that is still full for two readings, with a byte received before. -/
def waitingUart : Machine UartModel := { device := { rx := [9], fullPolls := 2 } }

/-- Two bytes are written to it with four readings, and three are read. -/
theorem writeBlock_readBlock_waiting :
    ∃ trace d, Completes (Machine.platform UartModel.bus)
        (Uart.writeBlock ⟨MemoryMap.target.uart0⟩ [1, 2]) waitingUart trace ()
        { waitingUart with device := d } ∧
      (trace.filterMap (Exchange.readOf? MemoryMap.target.uart0 (.status .tx))).length = 4 ∧
      d.sent = #[1, 2] ∧ d.rxStored = 0 ∧
      Returns (Machine.platform UartModel.bus) (Uart.readBlock ⟨MemoryMap.target.uart0⟩ 3)
        { waitingUart with device := d } [9, 1, 2]
        { waitingUart with device := { d with rx := [] } } := by
  obtain ⟨trace, d, hwrite, hcount, -, rfl, hread, -⟩ := writeBlock_readBlock
    (m := waitingUart) ⟨MemoryMap.target.uart0⟩ (by decide) (by decide) rfl [1, 2]
  exact ⟨trace, _, hwrite, hcount, rfl, rfl, hread⟩

end Uart

end BoardSupport
