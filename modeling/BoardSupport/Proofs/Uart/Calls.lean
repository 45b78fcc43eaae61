import BoardSupport.Proofs.Control.Updates
import BoardSupport.Proofs.Uart.Model

/-!
# What the driver's calls do to the UART model

A transfer sends or takes, never both (`Transfer.Delivers.sends_or_takes`), so each one
acts at one end of the receive queue (`Fifo.Moves.streams`, `returns_move`). The other
calls, but for the one that empties the receive FIFO, leave the queue and what was sent
alone (`throughout_sparing`), and only an acknowledgement takes a flag away
(`overflowed_sparing`). So no call ever reads data from an empty FIFO, at any point of it
(`throughout_perform_underflowed`).
-/

namespace BoardSupport

open Program
open Fifo (Flag Side Moves)

/-! ## What one transfer does to the queue -/

variable {m m' : Machine UartModel} {b : Block} {sent taken : List UInt8} {trace : List Exchange}

/-- The queue after bytes were sent or taken: what came back joins it at its end, what was
taken has left it at its front. -/
structure UartModel.Streams (d : UartModel) (outgoing taken : List UInt8) (d' : UartModel) :
    Prop where
  rx : d.rx ++ d.arrivals outgoing = taken ++ d'.rx
  sent : d'.sent = d.sent ++ outgoing.toArray
  loopback : d'.loopback = d.loopback
  rxStored : d'.rxStored =
    if d.Refuses outgoing then d.rxStored ||| Flag.overflow.mask else d.rxStored

theorem Fifo.Moves.streams (h : Moves b sent taken trace) (hone : sent = [] ∨ taken = [])
    (hans : Answered (Machine.platform UartModel.bus) trace m m') :
    m.device.Streams sent taken m'.device := by
  rcases hone with rfl | rfl
  · obtain ⟨hrx, hsame⟩ := h.takes hans
    simp only [UartModel.uncounted, UartModel.mk.injEq] at hsame
    obtain ⟨-, -, hstored, -, hloopback, -, hsent, -⟩ := hsame
    constructor
    · simpa [UartModel.arrivals] using hrx
    · simpa using hsent
    · exact hloopback
    · simpa [UartModel.Refuses] using hstored
  · have hsame := h.sends hans
    rw [UartModel.sendAll_eq] at hsame
    simp only [UartModel.uncounted, UartModel.mk.injEq] at hsame
    obtain ⟨-, -, hstored, hrx, hloopback, -, hsent, -⟩ := hsame
    constructor
    · simp [hrx]
    · exact hsent
    · exact hloopback
    · exact hstored

namespace UartModel.Streams

variable {d d' : UartModel}

theorem overflowed (h : d.Streams sent taken d') :
    d'.overflowed = (d.overflowed || decide (d.Refuses sent)) := by
  have hbit : bitAt Flag.overflow.mask 19 = true := by decide
  rw [overflowed_eq_bitAt, overflowed_eq_bitAt, h.rxStored, bitAt_ite_or, hbit, Bool.and_true]

theorem underflowed (h : d.Streams sent taken d') : d'.underflowed = d.underflowed := by
  have hbit : bitAt Flag.overflow.mask 20 = false := by decide
  rw [underflowed_eq_bitAt, underflowed_eq_bitAt, h.rxStored, bitAt_ite_or, hbit, Bool.and_false,
    Bool.or_false]

end UartModel.Streams

namespace Uart

/-- A transfer that has bytes to send hands out none. -/
theorem Transfer.Delivers.sends_or_takes {t : Transfer} {answer : Answer}
    (h : t.Delivers answer taken) : t.outgoing = [] ∨ taken = [] := by
  cases t with
  | writeByte byte | writeBlock bytes | writeString text =>
      cases answer with
      | done => exact Or.inr h
      | _ => exact h.elim
  | writeText text =>
      cases answer with
      | flag accepted => exact Or.inr h.2
      | _ => exact h.elim
  | readByte | tryReadByte | readByteWithin _ | readBlock _ | readLine _ => exact Or.inl rfl

theorem Transfer.Awaits.sends_or_takes {t : Transfer} (h : t.Awaits taken) :
    t.outgoing = [] ∨ taken = [] := by
  cases t with
  | writeByte byte | writeBlock bytes | writeString text | writeText text => exact Or.inr h
  | readByte | tryReadByte | readByteWithin _ | readBlock _ | readLine _ => exact Or.inl rfl

variable (u : Uart)

theorem returns_move {t : Transfer} {answer : Answer}
    (h : Returns (Machine.platform UartModel.bus) (u.move t) m answer m') :
    ∃ taken, t.Delivers answer taken ∧ m.device.Streams t.outgoing taken m'.device := by
  obtain ⟨trace, hans, taken, hdelivers, hmoves⟩ := (u.behaves_move t).of_returns h
  exact ⟨taken, hdelivers, hmoves.streams hdelivers.sends_or_takes hans⟩

/-- A transfer leaves the stored bits of the transmit status. -/
theorem txStored_move {t : Transfer} {answer : Answer}
    (h : Returns (Machine.platform UartModel.bus) (u.move t) m answer m') :
    m'.device.txStored = m.device.txStored := by
  obtain ⟨trace, hans, taken, hdelivers, hmoves⟩ := (u.behaves_move t).of_returns h
  have hone := hdelivers.sends_or_takes
  generalize t.outgoing = sent at hone hmoves
  rcases hone with rfl | rfl
  · have hsame := congrArg UartModel.txStored (hmoves.takes hans).2
    exact hsame
  · have hsends := hmoves.sends hans
    rw [UartModel.sendAll_eq] at hsends
    have hsame := congrArg UartModel.txStored hsends
    exact hsame

theorem throughout_move (t : Transfer) (m : Machine UartModel) :
    Throughout (Machine.platform UartModel.bus) (u.move t) m
      fun m' => m'.device.underflowed = m.device.underflowed := by
  intro n
  obtain ⟨trace, hans, h⟩ := (u.behaves_move t).of_advance (Machine.platform UartModel.bus) n m
  rcases h with ⟨answer, -, taken, hdelivers, hmoves⟩ | ⟨-, sent, taken, hsent, hawaits, hmoves⟩
  · exact (hmoves.streams hdelivers.sends_or_takes hans).underflowed
  · have hone : sent = [] ∨ taken = [] := by
      rcases hawaits.sends_or_takes with hnone | htaken
      · rw [hnone] at hsent
        exact Or.inl (List.prefix_nil.mp hsent)
      · exact Or.inr htaken
    exact (hmoves.streams hone hans).underflowed

/-! ## The other calls -/

/-- The call neither moves bytes nor empties the receive FIFO. -/
def Command.Sparing : Command → Prop
  | .transfer _ => False
  | .clearFifo .rx => False
  | _ => True

/-- The bits of the receive status that the call clears for good. -/
def Command.cleared : Command → UInt32
  | .clearOverflow .rx => Flag.overflow.mask
  | .clearErrors errors => errors.bits
  | _ => 0

open UartModel (OnControl Spares KeepsStream)

/-! ### Line settings -/

theorem asks_writeControl {r : Fifo.Register} {value : UInt32}
    (hr : r = .control ∨ r = .controlSet ∨ r = .controlClear) :
    Asks OnControl (u.writeWord r value) := Asks.request (.store hr)

theorem asks_readControl : Asks OnControl (u.readWord .control) := Asks.request .load

/-- The word that a setting hands to its field. -/
def Setting.word : Setting → UInt32
  | .dataBits value => value.code
  | .parity value => value.code
  | .stopBits value => value.code
  | .flowControl value => value.code
  | .cyclesPerBit value => value
  | .baud clockHz rate => clockHz / rate

/-- Each setter rewrites one field through the aliases. -/
theorem change_eq {setting : Setting} (h : ¬ Update.Refused (.set setting)) :
    u.change setting = u.setControlField setting.field setting.word := by
  cases setting with
  | baud clockHz rate =>
      have hrate : rate ≠ 0 := h
      show (ofExcept (divisor clockHz rate)).bind _ = _
      rw [divisor, if_neg hrate]
      rfl
  | dataBits _ | parity _ | stopBits _ | flowControl _ | cyclesPerBit _ => rfl

theorem asks_change {setting : Setting} (h : ¬ Update.Refused (.set setting)) :
    Asks OnControl (u.change setting) := by
  have hclear : Asks OnControl (u.writeWord .controlClear setting.field.mask) :=
    u.asks_writeControl (Or.inr (Or.inr rfl))
  rw [u.change_eq h]
  exact hclear.bind fun _ => u.asks_writeControl (Or.inr (Or.inl rfl))

/-- A line rate of zero is a fault, before any access. -/
theorem change_refused {setting : Setting} (h : Update.Refused (.set setting)) :
    u.change setting = .fault .divideByZero := by
  cases setting with
  | baud clockHz rate =>
      have hrate : rate = 0 := h
      show (ofExcept (divisor clockHz rate)).bind _ = _
      rw [divisor, if_pos hrate]
      rfl
  | dataBits _ | parity _ | stopBits _ | flowControl _ | cyclesPerBit _ => exact h.elim

theorem asks_readSetting (query : SettingQuery) : Asks OnControl (u.readSetting query) := by
  have hfield : ∀ f, Asks OnControl (u.controlField f) :=
    fun f => u.asks_readControl.bind fun _ => .done _
  cases query with
  | config => exact (u.asks_readControl.bind fun _ => .done _).bind fun _ => .done _
  | dataBits | parity | stopBits | flowControl =>
      exact ((hfield _).bind fun _ => .done _).bind fun _ => .done _
  | cyclesPerBit => exact (hfield _).bind fun _ => .done _

/-! ### Status and acknowledgements -/

theorem asks_clearRx {cleared value : UInt32} (hvalue : ∀ i, bitAt value i = true →
    Fifo.watermarkField.Covers i ∨ bitAt cleared i = true) :
    Asks (Spares cleared) (u.writeWord (.statusClear .rx) value) :=
  Asks.request (.store (r := .statusClear .rx) nofun nofun fun _ => hvalue)

theorem asks_writeTx {cleared value : UInt32} {r : Fifo.Register}
    (hr : r = .statusSet .tx ∨ r = .statusClear .tx) :
    Asks (Spares cleared) (u.writeWord r value) := by
  rcases hr with rfl | rfl
  · exact Asks.request (.store nofun nofun nofun)
  · exact Asks.request (.store nofun nofun nofun)

theorem asks_setWatermark {cleared : UInt32} (side : Side) (level : UInt8) :
    Asks (Spares cleared) (u.setWatermark side level) := by
  cases side with
  | tx =>
      have hclear : Asks (Spares cleared) (u.writeWord (.statusClear .tx) Fifo.watermarkField.mask) :=
        u.asks_writeTx (Or.inr rfl)
      exact hclear.bind fun _ => u.asks_writeTx (Or.inl rfl)
  | rx =>
      have hclear : Asks (Spares cleared)
          (u.writeWord (.statusClear .rx) Fifo.watermarkField.mask) := by
        refine u.asks_clearRx fun i hi => Or.inl ?_
        rw [Field.bitAt_mask] at hi
        exact of_decide_eq_true hi
      have hset : Asks (Spares cleared)
          (u.writeWord (.statusSet .rx) (Fifo.watermarkField.put level.toUInt32)) :=
        Asks.request (.store (r := .statusSet .rx) nofun
          (fun _ _ hi => Field.covers_of_bitAt_put hi) nofun)
      exact hclear.bind fun _ => hset

theorem asks_readStatus {P : Request → Prop}
    (h : ∀ side, P (.load u.block (Fifo.Register.status side).offset)) (query : StatusQuery) :
    Asks P (u.readStatus query) := by
  have hword : ∀ side, Asks P (u.readWord (.status side)) := fun side => Asks.request (h side)
  have hstatus : ∀ side, Asks P (u.status side) := fun side => (hword side).bind fun _ => .done _
  cases query with
  | status side => exact (hstatus side).bind fun _ => .done _
  | errors => exact ((hword .rx).bind fun _ => .done _).bind fun _ => .done _
  | flag side _ | fillLevel side | watermark side =>
      exact ((hstatus side).bind fun _ => .done _).bind fun _ => .done _
  | error _ => exact (((hword .rx).bind fun _ => .done _).bind fun _ => .done _).bind fun _ => .done _

/-- A call that spares the queue asks for nothing that would change it. -/
theorem asks_perform {command : Command} (h : command.Sparing)
    (hnr : ∀ setting, command = .set setting → ¬ Update.Refused (.set setting)) :
    Asks (Spares command.cleared) (u.perform command) := by
  cases command with
  | init config =>
      have hinit : Asks OnControl (u.init config) := u.asks_writeControl (Or.inl rfl)
      exact (hinit.mono fun _ hr => hr.spares).bind fun _ => .done _
  | set setting =>
      exact ((u.asks_change (hnr setting rfl)).mono fun _ hr => hr.spares).bind fun _ => .done _
  | get query => exact (u.asks_readSetting query).mono fun _ hr => hr.spares
  | query query => exact u.asks_readStatus (fun _ => .load nofun) query
  | setWatermark side level => exact (u.asks_setWatermark side level).bind fun _ => .done _
  | clearFifo side =>
      cases side with
      | tx => exact (u.asks_writeTx (Or.inl rfl)).bind fun _ => .done _
      | rx => exact h.elim
  | clearOverflow side =>
      cases side with
      | tx => exact (u.asks_writeTx (Or.inr rfl)).bind fun _ => .done _
      | rx => exact (u.asks_clearRx fun _ hi => Or.inr hi).bind fun _ => .done _
  | clearErrors errors => exact (u.asks_clearRx fun _ hi => Or.inr hi).bind fun _ => .done _
  | transfer t => exact h.elim

/-- At every point of a call that spares the queue, what was received and sent is the
same. -/
theorem throughout_sparing {command : Command} (h : command.Sparing) (m : Machine UartModel) :
    Throughout (Machine.platform UartModel.bus) (u.perform command) m
      fun m' => KeepsStream command.cleared m.device m'.device := by
  by_cases hr : ∃ setting, command = .set setting ∧ Update.Refused (.set setting)
  · obtain ⟨setting, rfl, hr⟩ := hr
    have hfault : u.perform (.set setting) = .fault .divideByZero := by
      show (u.change setting).bind _ = _
      rw [u.change_refused hr]
      rfl
    rw [hfault]
    exact Throughout.of_finished trivial (.refl _ _)
  · have hnr : ∀ setting, command = .set setting → ¬ Update.Refused (.set setting) :=
      fun setting hs hrefused => hr ⟨setting, hs, hrefused⟩
    exact (u.asks_perform h hnr).throughout (fun _ _ _ _ hr hk hm => hr.keepsStream hk hm)
      (.refl _ _)

/-- Only an acknowledgement takes the overflow flag away. -/
theorem overflowed_sparing {command : Command} {answer : Answer} (h : command.Sparing)
    (hret : Returns (Machine.platform UartModel.bus) (u.perform command) m answer m') :
    m'.device.overflowed = (m.device.overflowed && !bitAt command.cleared 19) := by
  have hclear : ∀ value, Returns (Machine.platform UartModel.bus)
      ((u.writeWord (.statusClear .rx) value).bind fun _ => .done .done) m answer m' →
      m'.device.overflowed = (m.device.overflowed && !bitAt value 19) := by
    intro value hret
    have hwrite := (u.returns_writeWord (.statusClear .rx) value m).bind
      (f := fun _ => .done Answer.done) (returns_done.mpr ⟨rfl, rfl⟩)
    obtain ⟨-, rfl⟩ := hret.unique hwrite
    rw [UartModel.overflowed_eq_bitAt, UartModel.overflowed_eq_bitAt, ← bitAt_and_not]
    rfl
  have hkept : command.cleared = 0 → m'.device.overflowed
      = (m.device.overflowed && !bitAt command.cleared 19) := by
    intro hnone
    have hflags := ((u.throughout_sparing h m).finish hret).flags 19 (by decide)
    rw [hnone] at hflags ⊢
    rw [UartModel.overflowed_eq_bitAt, UartModel.overflowed_eq_bitAt]
    simpa using hflags
  cases command with
  | clearErrors errors => exact hclear errors.bits hret
  | clearOverflow side =>
      cases side with
      | tx => exact hkept rfl
      | rx => exact hclear Flag.overflow.mask hret
  | init _ | set _ | get _ | query _ | setWatermark _ _ | clearFifo _ => exact hkept rfl
  | transfer _ => exact h.elim

/-- No call ever reads data from an empty FIFO, at any point of it. -/
theorem throughout_perform_underflowed {command : Command}
    (hcommand : command ≠ .clearFifo .rx) (hm : m.device.underflowed = false) :
    Throughout (Machine.platform UartModel.bus) (u.perform command) m
      fun m' => m'.device.underflowed = false := by
  have hsparing : command.Sparing → Throughout (Machine.platform UartModel.bus)
      (u.perform command) m fun m' => m'.device.underflowed = false :=
    fun h => (u.throughout_sparing h m).mono fun _ hkeeps => hkeeps.underflowed hm
  cases command with
  | transfer t => exact (u.throughout_move t m).mono fun _ h => h.trans hm
  | clearFifo side =>
      cases side with
      | tx => exact hsparing trivial
      | rx => exact absurd rfl hcommand
  | init _ | set _ | get _ | query _ | setWatermark _ _ | clearOverflow _ | clearErrors _ =>
      exact hsparing trivial

end Uart

end BoardSupport
