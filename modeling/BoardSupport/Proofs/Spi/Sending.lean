import BoardSupport.Proofs.Program.Stops
import BoardSupport.Proofs.Spi.Calls
import BoardSupport.Proofs.Spi.Snapshot

/-!
# When a byte leaves

A queued byte leaves if the transmit side is on. Out of reset it is off; the start of a
transaction switches it on, and the end of one does not switch it off again. So what
decides is not whether a transaction is open but whether there ever was one (`Ready`,
`transmits_iff_begun`): before the first one a byte is dropped and an exchange of bytes
waits forever, and from then on both send, inside a transaction and outside.
-/

namespace BoardSupport

open Program
open Fifo (Register Side)

/-! ## The transmit side between calls -/

namespace SpiModel

/-- A receiving controller whose stored status words are quiet. Its transmit side is on
if a transaction has begun, and before that nothing has come in. -/
structure Ready (begun : Bool) (d : SpiModel) : Prop where
  quiet : d.Quiet
  receiving : d.rxEnabled = true
  sending : d.txEnabled = begun
  drained : begun = false → d.rx = []

theorem ready_master : Ready false master := ⟨⟨by decide, by decide⟩, rfl, rfl, fun _ => rfl⟩

namespace Ready

variable {begun : Bool} {d : SpiModel}

theorem putControl (h : d.Ready begun) (value : UInt32) : (d.putControl value).Ready begun :=
  ⟨⟨h.quiet.tx, h.quiet.rx⟩, h.receiving, h.sending, h.drained⟩

theorem polled (h : d.Ready begun) : d.polled.Ready begun :=
  ⟨⟨h.quiet.tx, h.quiet.rx⟩, h.receiving, h.sending, h.drained⟩

theorem load (h : d.Ready begun) (offset : Nat) : (d.load offset).2.Ready begun := by
  obtain ⟨rx, polls, heq, hrx⟩ := d.exists_load_eq offset
  rw [heq]
  exact ⟨⟨h.quiet.tx, h.quiet.rx⟩, h.receiving, h.sending, fun hnone => hrx (h.drained hnone)⟩

/-- With the transmit side off, a byte is dropped. -/
theorem shift_eq (h : d.Ready false) (byte : UInt8) : d.shift byte = d := by
  simp [SpiModel.shift, h.sending]

theorem shift (h : d.Ready begun) (byte : UInt8) : (d.shift byte).Ready begun := by
  cases begun with
  | false =>
      rw [h.shift_eq]
      exact h
  | true =>
      rw [shift_of_rx_on h.sending h.receiving]
      exact ⟨⟨h.quiet.tx, h.quiet.rx⟩, h.receiving, h.sending, nofun⟩

/-- Watermark bits are set. -/
theorem store_statusSet (h : d.Ready begun) (side : Side) {value : UInt32}
    (hvalue : ∀ i, bitAt value i = true → Fifo.watermarkField.Covers i) :
    (d.store (Register.statusSet side).offset value).Ready begun := by
  have henable : (value &&& Spi.enableMask != 0) = false := by
    rw [Spi.enableMask_eq]
    show (Field.bit 31).isSet value = false
    rw [Field.isSet_bit]
    exact Bool.eq_false_iff.mpr fun hbit => absurd (hvalue 31 hbit) (by decide)
  have hkept : ∀ i, bitAt (value &&& ~~~Spi.enableMask) i = true →
      Fifo.watermarkField.Covers i := by
    intro i hi
    rw [bitAt_and_not, Bool.and_eq_true] at hi
    exact hvalue i hi.1
  cases side with
  | tx =>
      refine ⟨⟨h.quiet.tx.or hkept, h.quiet.rx⟩, h.receiving, ?_, h.drained⟩
      show (d.txEnabled || value &&& Spi.enableMask != 0) = begun
      rw [henable, Bool.or_false, h.sending]
  | rx =>
      refine ⟨⟨h.quiet.tx, h.quiet.rx.or hkept⟩, ?_, h.sending, h.drained⟩
      show (d.rxEnabled || value &&& Spi.enableMask != 0) = true
      rw [h.receiving, Bool.true_or]

/-- Anything but the enable bit is cleared. -/
theorem store_statusClear (h : d.Ready begun) (side : Side) {value : UInt32}
    (hvalue : bitAt value 31 = false) :
    (d.store (Register.statusClear side).offset value).Ready begun := by
  have henable : (value &&& Spi.enableMask == 0) = true := by
    have hset : (Field.bit 31).isSet value = false := (Field.isSet_bit (by decide)).trans hvalue
    rw [Spi.enableMask_eq]
    simpa [Field.isSet] using hset
  cases side with
  | tx =>
      refine ⟨⟨h.quiet.tx.and _, h.quiet.rx⟩, h.receiving, ?_, h.drained⟩
      show (d.txEnabled && value &&& Spi.enableMask == 0) = begun
      rw [henable, Bool.and_true, h.sending]
  | rx =>
      refine ⟨⟨h.quiet.tx, h.quiet.rx.and _⟩, ?_, h.sending, h.drained⟩
      show (d.rxEnabled && value &&& Spi.enableMask == 0) = true
      rw [henable, Bool.and_true, h.receiving]

theorem begins (h : d.Ready begun) : d.begun.Ready true :=
  ⟨⟨h.quiet.tx, h.quiet.rx⟩, h.receiving, rfl, nofun⟩

theorem transferred (h : d.Ready begun) (bytes : List UInt8) (taken : Nat) :
    (d.transferred bytes taken).Ready true :=
  ⟨⟨h.quiet.tx, h.quiet.rx⟩, rfl, rfl, nofun⟩

end Ready

end SpiModel

namespace Spi

/-! ## Requests and calls -/

variable {begun : Bool} {m t m' : Machine SpiModel} {S : Nat → Prop}

theorem Mild.ready {r : Request} {v : r.Reply} (hr : Mild S False r)
    (hm : m.device.Ready begun) (h : SpiModel.platform r m = .returned v t) :
    t.device.Ready begun := by
  cases hr with
  | load =>
      cases h
      exact hm.load _
  | queue =>
      cases h
      exact hm.shift _
  | control hr hvalue =>
      rcases hr with rfl | rfl
      · cases h
        exact hm.putControl _
      · cases h
        exact hm.putControl _
  | watermark hvalue =>
      cases h
      exact hm.store_statusSet _ hvalue
  | clear hvalue =>
      cases h
      exact hm.store_statusClear _ hvalue
  | switch hr hfalse => exact hfalse.elim
  | logFilter | log =>
      cases h
      exact hm

/-- Before the first transaction nothing is ever sent. -/
theorem Mild.frames {r : Request} {v : r.Reply} (hr : Mild S False r)
    (hm : m.device.Ready false) (h : SpiModel.platform r m = .returned v t) :
    t.device.frames = m.device.frames := by
  cases hr with
  | @load b offset =>
      cases h
      obtain ⟨rx, polls, heq, -⟩ := m.device.exists_load_eq offset
      show (m.device.load offset).2.frames = _
      rw [heq]
  | @queue b value =>
      cases h
      show (m.device.shift value.toUInt8).frames = _
      rw [hm.shift_eq]
  | control hr hvalue =>
      rcases hr with rfl | rfl
      · cases h
        rfl
      · cases h
        rfl
  | @watermark b side value hvalue =>
      cases h
      cases side <;> rfl
  | @clear b side value hvalue =>
      cases h
      cases side <;> rfl
  | switch hr hfalse => exact hfalse.elim
  | logFilter | log =>
      cases h
      rfl

/-- The call switches a side on or off, and does nothing else. -/
def Command.isSwitch : Command → Bool
  | .setEnabled _ _ => true
  | _ => false

/-- The call, answered like this, has begun a transaction. -/
def Command.begins : Command → Answer → Bool
  | .beginTransaction, _ => true
  | .withTransaction _, _ => true
  | .writeBlock _, .sent (.ok _) => true
  | .readBlock _, .received (.ok _) _ => true
  | _, _ => false

/-- One of the calls has begun a transaction. -/
def anyBegins : List Command → List Answer → Bool
  | c :: rest, a :: as => c.begins a || anyBegins rest as
  | _, _ => false

variable {s : Spi}

theorem ready_asks {α : Type} {x : Program α} {v : α} (hx : Asks (Mild S False) x)
    (hm : m.device.Ready begun) (h : Returns SpiModel.platform x m v m') :
    m'.device.Ready begun :=
  (hx.throughout (fun _ _ _ _ hr hm ht => hr.ready hm ht) hm).finish h

/-- A block transfer begins a transaction, unless a slave refuses it. -/
theorem ready_blockTransfer {c : Command} {a : Answer} (hc : c.isBlockTransfer = true)
    (hm : m.device.Ready begun) (h : Returns SpiModel.platform (s.perform c) m a m') :
    m'.device.Ready (begun || c.begins a) := by
  cases hrole : effectiveRole m.device.control with
  | master =>
      suffices hbegins : c.begins a = true ∧ m'.device.Ready true by
        rw [hbegins.1, Bool.or_true]
        exact hbegins.2
      cases c with
      | writeBlock bytes =>
          have hwrite := s.returns_writeBlock hm.quiet hrole bytes
          obtain ⟨rfl, rfl⟩ := h.unique (hwrite.map Answer.sent)
          exact ⟨rfl, hm.transferred bytes 0⟩
      | readBlock buffer =>
          have hread := s.returns_readBlock hm.quiet hrole buffer
          obtain ⟨result, rfl, hret⟩ := returns_map.mp h
          obtain ⟨rfl, rfl⟩ := hret.unique hread
          exact ⟨rfl, hm.transferred _ _⟩
      | _ => cases hc
  | slave =>
      suffices hrefused : c.begins a = false ∧
          m'.device = m.device.putControl m.device.control by
        rw [hrefused.1, hrefused.2, Bool.or_false]
        exact hm.putControl m.device.control
      cases c with
      | writeBlock bytes =>
          obtain ⟨rfl, rfl⟩ := h.unique ((s.returns_writeBlock_slave hrole bytes).map Answer.sent)
          exact ⟨rfl, rfl⟩
      | readBlock buffer =>
          obtain ⟨result, rfl, hret⟩ := returns_map.mp h
          obtain ⟨rfl, rfl⟩ := hret.unique (s.returns_readBlock_slave hrole buffer)
          exact ⟨rfl, rfl⟩
      | _ => cases hc

theorem ready_perform {c : Command} {a : Answer} (hc : c.isTransaction = false)
    (hswitch : c.isSwitch = false) (hm : m.device.Ready begun)
    (h : Returns SpiModel.platform (s.perform c) m a m') :
    m'.device.Ready (begun || c.begins a) := by
  have hmild : c.isMild = true → c.switches = false → c.begins a = false →
      m'.device.Ready (begun || c.begins a) := by
    intro hmild hno hbegins
    rw [hbegins, Bool.or_false]
    refine ready_asks (S := Covered c.fields) ((s.asks_perform hmild).mono fun r hr => ?_) hm h
    exact hr.mono (fun _ hi => hi) fun hyes => Bool.false_ne_true (hno.symm.trans hyes)
  cases c with
  | init config =>
      obtain ⟨-, rfl⟩ := h.unique ((s.returns_writeWord .control config.encode m).map
        fun _ => Answer.done)
      show SpiModel.Ready (begun || false) _
      rw [Bool.or_false]
      exact hm.putControl config.encode
  | beginTransaction =>
      obtain ⟨_, -, hbegin⟩ := returns_map.mp h
      obtain ⟨-, rfl⟩ := hbegin.unique (s.returns_beginTransaction hm.quiet)
      show SpiModel.Ready (begun || true) _
      rw [Bool.or_true]
      exact hm.begins
  | writeBlock _ | readBlock _ => exact ready_blockTransfer rfl hm h
  | withTransaction body => cases hc
  | setEnabled side on => cases hswitch
  | set _ | get _ | query _ | clearOverflow _ | clearRxUnderflow | setWatermark _ _ | flushRx
  | writeByte _ | readByte | transferByte _ | endTransaction => exact hmild rfl rfl rfl

/-! ## Runs -/

/-- No call of a run but the start of a transaction decides about the transmit side. -/
theorem runRule_ready (s : Spi) : RunRule s SpiModel.platform
    (fun c m a m' => c.anywhere Command.isSwitch = false → ∀ begun, m.device.Ready begun →
      m'.device.Ready (begun || c.begins a))
    (fun commands m as m' => anyCommand Command.isSwitch commands = false → ∀ begun,
      m.device.Ready begun → m'.device.Ready (begun || anyBegins commands as)) where
  single hc h hswitch begun hm := by
    rw [Command.anywhere_of_single hc] at hswitch
    exact ready_perform hc hswitch hm h
  transaction hbegin hbody hend hswitch begun hm := by
    -- The body runs with the transmit side on, and the end leaves it on.
    obtain ⟨-, rfl⟩ := hbegin.unique (s.returns_beginTransaction hm.quiet)
    have hopen := hbody hswitch true hm.begins
    show SpiModel.Ready (begun || true) _
    rw [Bool.or_true]
    exact ready_asks s.asks_endTransaction hopen hend
  nil _ begun hm := by
    show SpiModel.Ready (begun || false) _
    rw [Bool.or_false]
    exact hm
  cons hfirst hrest hswitch begun hm := by
    obtain ⟨hc, hothers⟩ := Bool.or_eq_false_iff.mp hswitch
    have hlast := hrest hothers _ (hfirst hc begun hm)
    rw [Bool.or_assoc] at hlast
    exact hlast

/-! ## Before the first transaction -/

section Before

variable (s : Spi)

theorem returns_writeByte_dropped (hm : m.device.Ready false) (byte : UInt8) :
    Returns SpiModel.platform (s.writeByte byte) m () { m with device := m.device.polled } := by
  have hwrite := s.returns_writeByte hm.quiet byte
  rwa [hm.polled.shift_eq] at hwrite

/-- Nothing comes in for a byte that was dropped. -/
theorem stops_transferByte (hm : m.device.Ready false) (byte : UInt8) :
    Stops SpiModel.platform (s.transferByte byte) m .hang
      { m with device := m.device.polled } := by
  have hempty := s.returns_rxEmpty (m := { m with device := m.device.polled }) hm.polled.quiet
  rw [show m.device.polled.rx = [] from hm.polled.drained rfl] at hempty
  -- Each look into the FIFO finds it empty and leaves it so.
  have hwaits := Stops.waitUntil (hempty.bind
    (f := fun empty => .done !empty) (returns_done.mpr ⟨rfl, rfl⟩))
  exact Stops.after (s.returns_writeByte_dropped hm byte) hwaits.bind

theorem throughout_transferByte (hm : m.device.Ready false) (byte : UInt8) :
    Throughout SpiModel.platform (s.transferByte byte) m
      fun t => t.device.frames = m.device.frames := by
  have hmild : Asks (Mild (fun _ => False) False) (s.transferByte byte) :=
    s.asks_transferByte byte
  have hboth : Throughout SpiModel.platform (s.transferByte byte) m fun t =>
      t.device.Ready false ∧ t.device.frames = m.device.frames :=
    hmild.throughout (fun _ _ _ _ hr hk h =>
      ⟨hr.ready hk.1 h, (hr.frames hk.1 h).trans hk.2⟩) ⟨hm, rfl⟩
  exact hboth.mono fun _ h => h.2

end Before

/-! ## From then on -/

section After

variable (s : Spi)

theorem exists_returns_writeByte_sent (hm : m.device.Ready true) (byte : UInt8) :
    ∃ t, Returns SpiModel.platform (s.writeByte byte) m () t ∧
      t.device.frames = m.device.frames.push (m.device.frame byte) := by
  have hwrite := s.returns_writeByte hm.quiet byte
  rw [SpiModel.shift_of_rx_on (d := m.device.polled) hm.sending hm.receiving] at hwrite
  exact ⟨_, hwrite, rfl⟩

theorem exists_returns_transferByte_sent (hm : m.device.Ready true) (byte : UInt8) :
    ∃ reply t, Returns SpiModel.platform (s.transferByte byte) m reply t ∧
      t.device.frames = m.device.frames.push (m.device.frame byte) := by
  obtain ⟨reply, rest, hrx⟩ := List.exists_cons_of_ne_nil
    (List.concat_ne_nil (m.device.miso.headD byte) m.device.rx)
  exact ⟨reply, _, s.returns_transferByte hm.quiet hm.sending hm.receiving byte hrx, rfl⟩

end After

/-! ## Both -/

/-- **What sends is the first transaction, not an open one.** After any calls on a master
out of reset, the switches of the two sides apart, the transmit side is on if and only if
one of the calls has begun a transaction. If none has, a byte is dropped, and an exchange
of bytes sends nothing and never returns. If one has, both send the byte and return, even
when that transaction is long over. -/
theorem transmits_iff_begun (s : Spi) {m m' : Machine SpiModel} {commands : List Command}
    {answers : List Answer} (hm : m.device = .master)
    (hc : anyCommand Command.isSwitch commands = false)
    (h : Returns SpiModel.platform (s.performAll commands) m answers m') (byte : UInt8) :
    m'.device.txEnabled = anyBegins commands answers ∧
    (anyBegins commands answers = false →
      (∃ t, Returns SpiModel.platform (s.writeByte byte) m' () t ∧
        t.device.frames = m'.device.frames) ∧
      (∃ t, Stops SpiModel.platform (s.transferByte byte) m' .hang t) ∧
      Throughout SpiModel.platform (s.transferByte byte) m'
        fun t => t.device.frames = m'.device.frames) ∧
    (anyBegins commands answers = true →
      (∃ t, Returns SpiModel.platform (s.writeByte byte) m' () t ∧
        t.device.frames = m'.device.frames.push (m'.device.frame byte)) ∧
      ∃ reply t, Returns SpiModel.platform (s.transferByte byte) m' reply t ∧
        t.device.frames = m'.device.frames.push (m'.device.frame byte)) := by
  have hready : m'.device.Ready (anyBegins commands answers) := by
    have hmaster : m.device.Ready false := by
      rw [hm]
      exact SpiModel.ready_master
    have hrun := (runRule_ready s).of_performAll commands h hc false hmaster
    rwa [Bool.false_or] at hrun
  refine ⟨hready.sending, ?_, ?_⟩
  · intro hnone
    rw [hnone] at hready
    exact ⟨⟨_, s.returns_writeByte_dropped hready byte, rfl⟩,
      ⟨_, s.stops_transferByte hready byte⟩, s.throughout_transferByte hready byte⟩
  · intro hone
    rw [hone] at hready
    exact ⟨s.exists_returns_writeByte_sent hready byte,
      s.exists_returns_transferByte_sent hready byte⟩

/-- The same byte before any transaction, and after an empty one. -/
theorem transmits_iff_begun_byte :
    let s : Spi := ⟨MemoryMap.full.spi0⟩
    let m : Machine SpiModel := { device := .master }
    let before : List Command := [.set (.mode .mode3)]
    let after : List Command := [.set (.mode .mode3), .withTransaction []]
    (anyCommand Command.isSwitch before = false ∧ ∃ m',
      Returns SpiModel.platform (s.performAll before) m [.done] m' ∧
      ∃ t, Stops SpiModel.platform (s.transferByte 0xA5) m' .hang t) ∧
    anyCommand Command.isSwitch after = false ∧ ∃ m',
      Returns SpiModel.platform (s.performAll after) m [.done, .transaction []] m' ∧
      ∃ reply t, Returns SpiModel.platform (s.transferByte 0xA5) m' reply t ∧
        t.device.frames = m'.device.frames.push ⟨0xA5, false, false⟩ := by
  have hbefore : ∃ m', Returns SpiModel.platform
      (performAll ⟨MemoryMap.full.spi0⟩ [.set (.mode .mode3)]) { device := .master } [.done] m' :=
    ⟨_, 0, rfl⟩
  have hafter : ∃ m', Returns SpiModel.platform
      (performAll ⟨MemoryMap.full.spi0⟩ [.set (.mode .mode3), .withTransaction []])
      { device := .master } [.done, .transaction []] m' ∧
      m'.device.frame 0xA5 = ⟨0xA5, false, false⟩ := ⟨_, ⟨1, rfl⟩, rfl⟩
  intro s m before after
  obtain ⟨m₁, hfirst⟩ := hbefore
  obtain ⟨m₂, hsecond, hframe⟩ := hafter
  refine ⟨⟨rfl, m₁, hfirst, ?_⟩, rfl, m₂, hsecond, ?_⟩
  · exact ((transmits_iff_begun s rfl rfl hfirst 0xA5).2.1 rfl).2.1
  · rw [← hframe]
    exact ((transmits_iff_begun s rfl rfl hsecond 0xA5).2.2 rfl).2

/-- The calls that configure the controller, send or fill blocks, or frame transactions. -/
def Command.isFraming : Command → Bool
  | .init _ | .set _ | .writeBlock _ | .readBlock _ => true
  | .beginTransaction | .endTransaction | .withTransaction _ => true
  | _ => false

/-- A transaction is open after the calls. -/
def isOpen (commands : List Command) : Bool :=
  commands.foldl (fun isOpen c => match c with
    | .beginTransaction => true
    | .endTransaction | .withTransaction _ => false
    | _ => isOpen) false

/-- With no transaction open, a byte may leave and an exchange of bytes may return. -/
theorem transmits_outside :
    (¬ ∀ (s : Spi) (m m' : Machine SpiModel) (commands : List Command) (answers : List Answer),
      m.device = .master → (∀ c ∈ commands, c.isFraming = true) →
      anyCommand Command.isSwitch commands = false →
      Returns SpiModel.platform (s.performAll commands) m answers m' → isOpen commands = false →
        ∀ (byte : UInt8) (t : Machine SpiModel),
          Returns SpiModel.platform (s.writeByte byte) m' () t →
            t.device.frames = m'.device.frames) ∧
    ¬ ∀ (s : Spi) (m m' : Machine SpiModel) (commands : List Command) (answers : List Answer),
      m.device = .master → (∀ c ∈ commands, c.isFraming = true) →
      anyCommand Command.isSwitch commands = false →
      Returns SpiModel.platform (s.performAll commands) m answers m' → isOpen commands = false →
        ∀ (byte reply : UInt8) (t : Machine SpiModel),
          ¬ Returns SpiModel.platform (s.transferByte byte) m' reply t := by
  have hrun : ∃ m', Returns SpiModel.platform (performAll ⟨MemoryMap.full.spi0⟩
      [.withTransaction []]) { device := .master } [.transaction []] m' ∧
      (∃ t, Returns SpiModel.platform (writeByte ⟨MemoryMap.full.spi0⟩ 0xA5) m' () t ∧
        m'.device.frames = #[] ∧ t.device.frames = #[⟨0xA5, false, false⟩]) ∧
      ∃ t, Returns SpiModel.platform (transferByte ⟨MemoryMap.full.spi0⟩ 0xA5) m' 0xA5 t :=
    ⟨_, ⟨1, rfl⟩, ⟨_, ⟨1, rfl⟩, rfl, rfl⟩, _, 1, rfl⟩
  obtain ⟨m', hret, ⟨t, hwrite, hnone, hframe⟩, u, htransfer⟩ := hrun
  constructor
  · intro hdrops
    have hsame := hdrops _ _ _ _ _ rfl (by simp [Command.isFraming]) rfl hret rfl _ _ hwrite
    rw [hnone, hframe] at hsame
    exact absurd hsame (by decide)
  · intro hwaits
    exact hwaits _ _ _ _ _ rfl (by simp [Command.isFraming]) rfl hret rfl _ _ _ htransfer

end Spi

end BoardSupport
