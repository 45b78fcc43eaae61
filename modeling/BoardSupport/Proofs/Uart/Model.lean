import BoardSupport.Device.Machine
import BoardSupport.Device.Uart
import BoardSupport.Proofs.Device.Access
import BoardSupport.Proofs.Program.Requests
import BoardSupport.Proofs.Uart.Transfers

/-!
# The UART model under its driver

What the driver's requests do to the model of the UART: which bit of a status word shows
what (`bitAt_statusWord`), what sending a list of bytes does as a whole (`sendAll_eq`),
that a transfer which keeps the handshake takes the oldest received bytes
(`Fifo.Moves.takes`) or sends its bytes (`Fifo.Moves.sends`) and does nothing else, and
that all other requests leave what was received and sent alone (`Spares.keepsStream`).

A UART that is full only for some readings of its status takes every byte in the end
(`Drains`).
-/

namespace BoardSupport

open Program
open Fifo (Flag RxError RxErrors Status Moves)

/-! ## Receive errors -/

/-- The number of an error's bit in the receive status. -/
def Fifo.RxError.position : RxError → Nat
  | .underflow => 20
  | .noise => 21
  | .parity => 22
  | .frame => 23

theorem Fifo.RxError.position_lt (e : RxError) : e.position < 32 := by
  cases e with
  | underflow | noise | parity | frame => decide

theorem Fifo.RxError.mask_eq (e : RxError) : e.mask = (Field.bit e.position e.position_lt).mask := by
  cases e with
  | underflow | noise | parity | frame => decide

theorem Fifo.RxErrors.has_eq_bitAt (errors : RxErrors) (e : RxError) :
    errors.has e = bitAt errors.bits e.position := by
  rw [RxErrors.has, e.mask_eq]
  exact Field.isSet_bit e.position_lt

theorem Fifo.RxErrors.has_ofStatus (word : UInt32) (e : RxError) :
    (RxErrors.ofStatus word).has e = bitAt word e.position := by
  have hmasks : bitAt (RxError.all.foldl (fun m e => m ||| e.mask) 0) e.position = true := by
    cases e with
    | underflow | noise | parity | frame => decide
  rw [RxErrors.has_eq_bitAt, RxErrors.ofStatus, bitAt_and, hmasks, Bool.and_true]

/-! ## Status words -/

namespace UartModel

variable {d : UartModel}

theorem bitAt_ite_or (c : Prop) [Decidable c] (v w : UInt32) (i : Nat) :
    bitAt (if c then v ||| w else v) i = (bitAt v i || decide c && bitAt w i) := by
  by_cases h : c
  · rw [if_pos h, bitAt_or, decide_eq_true h, Bool.true_and]
  · rw [if_neg h, decide_eq_false h, Bool.false_and, Bool.or_false]

/-- A status word shows the stored bits, the level, and the flags that follow from it. -/
theorem bitAt_statusWord_eq (stored : UInt32) (level : Nat) (full : Bool) (i : Nat) :
    bitAt (statusWord stored level full) i = (bitAt stored i ||
      bitAt (UInt32.ofNat (min level 0xFF)) i ||
      decide (level = 0) && decide (i = 17) || full && decide (i = 16) ||
      decide ((stored >>> 8 &&& 0xFF) ≠ 0 ∧ (stored >>> 8 &&& 0xFF) ≤ UInt32.ofNat level)
        && decide (i = 18)) := by
  have hflag : ∀ f : Flag, bitAt f.mask i = decide (i = f.position) := by
    intro f
    rw [f.mask_eq, Field.bitAt_bit_mask]
  rw [statusWord]
  simp only [bitAt_ite_or, bitAt_or, hflag, Bool.decide_eq_true]
  rfl

/-- Above the level there are the stored bits and the flags. -/
theorem bitAt_statusWord (stored : UInt32) (level : Nat) (full : Bool) {i : Nat} (hi : 8 ≤ i) :
    bitAt (statusWord stored level full) i = (bitAt stored i ||
      decide (level = 0) && decide (i = 17) || full && decide (i = 16) ||
      decide ((stored >>> 8 &&& 0xFF) ≠ 0 ∧ (stored >>> 8 &&& 0xFF) ≤ UInt32.ofNat level)
        && decide (i = 18)) := by
  have hlevel : bitAt (UInt32.ofNat (min level 0xFF)) i = false := by
    have hpow : 2 ^ 8 ≤ 2 ^ i := Nat.pow_le_pow_right (by decide) hi
    rw [bitAt_ofNat, Nat.testBit_lt_two_pow (by omega), Bool.and_false]
  rw [bitAt_statusWord_eq, hlevel, Bool.or_false]

/-- The empty flag follows from the level, where it is not among the stored bits. -/
theorem empty_statusWord {stored : UInt32} (h : bitAt stored 17 = false) (level : Nat)
    (full : Bool) : (⟨statusWord stored level full⟩ : Status).has .empty = decide (level = 0) := by
  rw [Status.has_eq_bitAt]
  show bitAt _ 17 = _
  rw [bitAt_statusWord _ _ _ (by decide), h]
  simp

theorem full_statusWord {stored : UInt32} (h : bitAt stored 16 = false) (level : Nat)
    (full : Bool) : (⟨statusWord stored level full⟩ : Status).has .full = full := by
  rw [Status.has_eq_bitAt]
  show bitAt _ 16 = _
  rw [bitAt_statusWord _ _ _ (by decide), h]
  simp

/-- The empty flag is up when the FIFO is empty. -/
theorem rx_ne_nil (h : bitAt d.rxStatus 17 = false) : d.rx ≠ [] := by
  intro hnil
  rw [rxStatus, bitAt_statusWord _ _ _ (by decide), hnil] at h
  simp at h

/-- The overflow flag, as the driver reads it. -/
def overflowed (d : UartModel) : Bool := (⟨d.rxStatus⟩ : Status).has .overflow

/-- The underflow error, as the driver reads it. -/
def underflowed (d : UartModel) : Bool := (RxErrors.ofStatus d.rxStatus).has .underflow

theorem overflowed_eq_bitAt (d : UartModel) : d.overflowed = bitAt d.rxStored 19 := by
  rw [overflowed, Status.has_eq_bitAt, rxStatus]
  show bitAt _ 19 = _
  rw [bitAt_statusWord _ _ _ (by decide)]
  simp

theorem underflowed_eq_bitAt (d : UartModel) : d.underflowed = bitAt d.rxStored 20 := by
  rw [underflowed, RxErrors.has_ofStatus, rxStatus]
  show bitAt _ 20 = _
  rw [bitAt_statusWord _ _ _ (by decide)]
  simp

/-- Both flags are among the stored bits of the receive status. -/
theorem flags_congr {e : UartModel} (h : e.rxStored = d.rxStored) :
    e.overflowed = d.overflowed ∧ e.underflowed = d.underflowed := by
  rw [overflowed_eq_bitAt, overflowed_eq_bitAt, underflowed_eq_bitAt, underflowed_eq_bitAt, h]
  exact ⟨rfl, rfl⟩

end UartModel

/-! ## A UART that takes bytes -/

namespace UartModel

/-- The full flag is not among the stored bits, so it goes with the readings for which
the FIFO is still full. -/
def Drains (d : UartModel) : Prop := bitAt d.txStored 16 = false

variable {d : UartModel}

theorem full_txStatus (h : d.Drains) :
    (⟨d.txStatus⟩ : Status).has .full = decide (d.fullPolls ≠ 0) := by
  rw [txStatus]
  by_cases hp : d.fullPolls = 0
  · rw [if_pos hp, full_statusWord h, hp]
    rfl
  · rw [if_neg hp, full_statusWord h, decide_eq_true hp]

end UartModel

namespace Uart

variable (u : Uart) {m : Machine UartModel}

theorem returns_readWord (r : Fifo.Register) (m : Machine UartModel) :
    Returns (Machine.platform UartModel.bus) (u.readWord r) m (m.device.load r.offset).1
      { m with device := (m.device.load r.offset).2 } := Machine.returns_read rfl

theorem returns_writeWord (r : Fifo.Register) (value : UInt32) (m : Machine UartModel) :
    Returns (Machine.platform UartModel.bus) (u.writeWord r value) m ()
      { m with device := m.device.store r.offset value } := Machine.returns_write rfl

theorem completes_readWord (r : Fifo.Register) (m : Machine UartModel) :
    Completes (Machine.platform UartModel.bus) (u.readWord r) m
      [.read u.block r (m.device.load r.offset).1] (m.device.load r.offset).1
      { m with device := (m.device.load r.offset).2 } := completes_request rfl

theorem completes_writeWord (r : Fifo.Register) (value : UInt32) (m : Machine UartModel) :
    Completes (Machine.platform UartModel.bus) (u.writeWord r value) m [.wrote u.block r value] ()
      { m with device := m.device.store r.offset value } := completes_request rfl

theorem completes_txFull (h : m.device.Drains) :
    Completes (Machine.platform UartModel.bus) (u.hasFlag .tx .full) m
      [.read u.block (.status .tx) m.device.txStatus] (decide (m.device.fullPolls ≠ 0))
      { m with device := { m.device with fullPolls := m.device.fullPolls - 1 } } := by
  rw [← UartModel.full_txStatus h]
  exact ((u.completes_readWord (.status .tx) m).map _).map _

/-- The readings of a wait for room: some that show the FIFO full, and one that shows
room. -/
def roomReadings (b : Block) (txStored : UInt32) (polls : Nat) : List Exchange :=
  List.replicate polls (.read b (.status .tx) (UartModel.statusWord txStored 1 true)) ++
    [.read b (.status .tx) (UartModel.statusWord txStored 0 false)]

theorem roomReadings_succ (b : Block) (txStored : UInt32) (polls : Nat) :
    roomReadings b txStored (polls + 1)
      = [.read b (.status .tx) (UartModel.statusWord txStored 1 true)] ++
        roomReadings b txStored polls := rfl

/-- The wait for room ends after the readings for which the FIFO is still full. -/
theorem completes_waitRoom (h : m.device.Drains) :
    Completes (Machine.platform UartModel.bus)
      (waitUntil (do return !(← u.hasFlag .tx .full))) m
      (roomReadings u.block m.device.txStored m.device.fullPolls) ()
      { m with device := { m.device with fullPolls := 0 } } := by
  have hread := u.completes_txFull h
  rw [UartModel.txStatus] at hread
  induction hn : m.device.fullPolls generalizing m with
  | zero =>
      rw [hn, if_pos rfl, decide_eq_false (not_not_intro rfl)] at hread
      exact Completes.wait_leave (hread.map Bool.not)
  | succ n ih =>
      rw [hn, if_neg (Nat.succ_ne_zero n), decide_eq_true (Nat.succ_ne_zero n)] at hread
      rw [roomReadings_succ]
      refine Completes.wait_again (hread.map Bool.not) ?_
      have hnext := u.completes_txFull (m := { m with device := { m.device with fullPolls := n } }) h
      exact ih (m := { m with device := { m.device with fullPolls := n } }) h hnext rfl

end Uart

/-! ## Sending many bytes -/

namespace UartModel

variable {d : UartModel} {byte : UInt8} {rest : List UInt8}

/-- The bytes are sent one after another. -/
def sendAll (d : UartModel) (bytes : List UInt8) : UartModel := bytes.foldl send d

/-- The bytes that come back when these are sent: each one that is sent while the FIFO
holds fewer bytes than its capacity. -/
def arrivals (d : UartModel) (bytes : List UInt8) : List UInt8 :=
  if d.loopback then bytes.take (capacity - d.rx.length) else []

/-- One of the bytes would come back and is lost. -/
def Refuses (d : UartModel) (bytes : List UInt8) : Prop :=
  d.loopback = true ∧ capacity - d.rx.length < bytes.length

instance (d : UartModel) (bytes : List UInt8) : Decidable (d.Refuses bytes) :=
  inferInstanceAs (Decidable (_ ∧ _))

theorem sendAll_eq (d : UartModel) (bytes : List UInt8) :
    d.sendAll bytes =
      { d with
        rx := d.rx ++ d.arrivals bytes
        sent := d.sent ++ bytes.toArray
        rxStored := if d.Refuses bytes then d.rxStored ||| Flag.overflow.mask else d.rxStored } := by
  induction bytes generalizing d with
  | nil => simp [sendAll, arrivals, Refuses]
  | cons byte rest ih =>
      rw [sendAll, List.foldl_cons]
      refine (ih (d.send byte)).trans ?_
      obtain ⟨control, txStored, rxStored, rx, loopback, fullPolls, sent, writes⟩ := d
      cases loopback with
      | false => simp [send, arrivals, Refuses]
      | true =>
          by_cases hfull : capacity ≤ rx.length
          · have hnone : capacity - rx.length = 0 := Nat.sub_eq_zero_of_le hfull
            simp [send, arrivals, Refuses, raise, hfull, hnone, UInt32.or_assoc]
          · obtain ⟨room, hroom⟩ : ∃ room, capacity - rx.length = room + 1 :=
              ⟨capacity - rx.length - 1, by omega⟩
            have hless : capacity - (rx.length + 1) = room := by omega
            simp [send, arrivals, Refuses, hfull, hroom, hless]

theorem sendAll_cons (d : UartModel) (byte : UInt8) (rest : List UInt8) :
    d.sendAll (byte :: rest) = (d.sendAll [byte]).sendAll rest := rfl

/-- Sending does not use the counts of polls and of writes. -/
theorem sendAll_counted (d : UartModel) (polls writes : Nat) (bytes : List UInt8) :
    { d with fullPolls := polls, writes := writes }.sendAll bytes
      = { d.sendAll bytes with fullPolls := polls, writes := writes } := by
  rw [sendAll_eq, sendAll_eq]
  rfl

/-- The UART without its counts of polls and of writes. -/
def uncounted (d : UartModel) : UartModel := { d with fullPolls := 0, writes := 0 }

theorem uncounted_sendAll (d : UartModel) (bytes : List UInt8) :
    (d.sendAll bytes).uncounted = d.uncounted.sendAll bytes := (d.sendAll_counted 0 0 bytes).symm

theorem load_txStatus (d : UartModel) :
    d.load (Fifo.Register.status .tx).offset
      = (d.txStatus, { d with fullPolls := d.fullPolls - 1 }) := rfl

theorem load_rxStatus (d : UartModel) :
    d.load (Fifo.Register.status .rx).offset = (d.rxStatus, d) := rfl

theorem load_data (h : d.rx = byte :: rest) :
    d.load Fifo.Register.data.offset = (byte.toUInt32, { d with rx := rest }) := by
  rw [load, Fifo.Register.ofOffset?_offset, h]

theorem store_data (d : UartModel) (value : UInt32) :
    d.store Fifo.Register.data.offset value
      = { d.sendAll [value.toUInt8] with writes := d.writes + 1 } := rfl

end UartModel

/-! ## Transfers -/

variable {m m' : Machine UartModel} {b : Block} {sent taken : List UInt8} {trace : List Exchange}

namespace Machine

theorem answered_read {r : Fifo.Register} {word v : UInt32} {d : UartModel}
    (hload : m.device.load r.offset = (v, d))
    (h : Answered (platform UartModel.bus) (.read b r word :: trace) m m') :
    word = v ∧ Answered (platform UartModel.bus) trace { m with device := d } m' := by
  cases h with
  | cons hr hrest =>
      obtain ⟨d', hd', rfl⟩ := exists_of_platform_load hr
      have hword : (v, d) = (word, d') := hload.symm.trans (Except.ok.inj hd')
      cases hword
      exact ⟨rfl, hrest⟩

theorem answered_wrote {r : Fifo.Register} {value : UInt32}
    (h : Answered (platform UartModel.bus) (.wrote b r value :: trace) m m') :
    Answered (platform UartModel.bus) trace
      { m with device := m.device.store r.offset value } m' := by
  cases h with
  | cons hr hrest =>
      obtain ⟨d, hd, rfl⟩ := exists_of_platform_store hr
      cases hd
      exact hrest

end Machine

namespace Fifo.Moves

/-- The bytes taken are the oldest received ones, and taking them changes nothing else. -/
theorem takes (h : Moves b [] taken trace)
    (hans : Answered (Machine.platform UartModel.bus) trace m m') :
    m.device.rx = taken ++ m'.device.rx ∧
      m'.device.uncounted = { m.device with rx := m'.device.rx }.uncounted := by
  generalize hsent : ([] : List UInt8) = sent at h
  induction h generalizing m with
  | nil =>
      cases hans
      exact ⟨rfl, rfl⟩
  | poll side word _ ih =>
      cases side with
      | tx =>
          have hrest := ih (Machine.answered_read m.device.load_txStatus hans).2 hsent
          exact hrest
      | rx => exact ih (Machine.answered_read m.device.load_rxStatus hans).2 hsent
  | write byte _ _ _ => cases hsent
  | @read sent taken trace word value hbyte _ ih =>
      obtain ⟨rfl, hpoll⟩ := Machine.answered_read m.device.load_rxStatus hans
      obtain ⟨first, queue, hqueue⟩ := List.exists_cons_of_ne_nil (UartModel.rx_ne_nil hbyte)
      obtain ⟨rfl, htake⟩ := Machine.answered_read (UartModel.load_data hqueue) hpoll
      obtain ⟨hrest, hsame⟩ := ih htake hsent
      refine ⟨?_, hsame⟩
      have hrest' : queue = taken ++ m'.device.rx := hrest
      rw [hqueue, hrest', UInt8.toUInt8_toUInt32, List.cons_append]

/-- Sending has sent the bytes and changes nothing else. -/
theorem sends (h : Moves b sent [] trace)
    (hans : Answered (Machine.platform UartModel.bus) trace m m') :
    m'.device.uncounted = (m.device.sendAll sent).uncounted := by
  generalize htaken : ([] : List UInt8) = taken at h
  induction h generalizing m with
  | nil =>
      cases hans
      rfl
  | @poll sent _ _ side word _ ih =>
      cases side with
      | tx =>
          have hrest := ih (Machine.answered_read m.device.load_txStatus hans).2 htaken
          rw [UartModel.uncounted_sendAll] at hrest ⊢
          exact hrest
      | rx => exact ih (Machine.answered_read m.device.load_rxStatus hans).2 htaken
  | @write sent _ _ _ byte _ _ ih =>
      have hpoll := (Machine.answered_read m.device.load_txStatus hans).2
      have hrest := ih (Machine.answered_wrote hpoll) htaken
      rw [UartModel.store_data, UInt8.toUInt8_toUInt32, UartModel.uncounted_sendAll] at hrest
      rw [UartModel.sendAll_cons, UartModel.uncounted_sendAll, UartModel.uncounted_sendAll]
      refine hrest.trans (congrArg (UartModel.sendAll · sent) ?_)
      exact UartModel.uncounted_sendAll { m.device with fullPolls := m.device.fullPolls - 1 } [byte]
  | read value _ _ _ => cases htaken

end Fifo.Moves

/-! ## Requests for the control word only -/

namespace UartModel

/-- A reading of the control word, or a write to it or to one of its aliases. -/
inductive OnControl : Request → Prop
  | load {b : Block} : OnControl (.load b Fifo.Register.control.offset)
  | store {b : Block} {r : Fifo.Register} {value : UInt32}
      (hr : r = .control ∨ r = .controlSet ∨ r = .controlClear) :
      OnControl (.store b r.offset value)

/-- The same machine, but for the control word of its UART and the count of writes. -/
def SameButControl (m m' : Machine UartModel) : Prop :=
  ∃ control writes, m' = { m with device := { m.device with control, writes } }

theorem SameButControl.refl (m : Machine UartModel) : SameButControl m m :=
  ⟨m.device.control, m.device.writes, rfl⟩

theorem SameButControl.trans {m₁ m₂ m₃ : Machine UartModel} (h : SameButControl m₁ m₂)
    (h' : SameButControl m₂ m₃) : SameButControl m₁ m₃ := by
  obtain ⟨_, _, rfl⟩ := h
  obtain ⟨control, writes, rfl⟩ := h'
  exact ⟨control, writes, rfl⟩

theorem OnControl.sameButControl {r : Request} {v : r.Reply} (hr : OnControl r)
    (hm : Machine.platform UartModel.bus r m = .returned v m') : SameButControl m m' := by
  cases hr with
  | load =>
      obtain ⟨d, hd, rfl⟩ := Machine.exists_of_platform_load hm
      cases hd
      exact SameButControl.refl m
  | store hr =>
      obtain ⟨d, hd, rfl⟩ := Machine.exists_of_platform_store hm
      cases hd
      rcases hr with rfl | rfl | rfl
      · exact ⟨_, _, rfl⟩
      · exact ⟨_, _, rfl⟩
      · exact ⟨_, _, rfl⟩

end UartModel

/-! ## Requests that spare the received bytes -/

namespace UartModel

/-- An access of another register than the data register. In the receive status it may
change the watermark, and clear bits of `cleared`. -/
inductive Spares (cleared : UInt32) : Request → Prop
  | load {b : Block} {r : Fifo.Register} (hr : r ≠ .data) : Spares cleared (.load b r.offset)
  | store {b : Block} {r : Fifo.Register} {value : UInt32} (hr : r ≠ .data)
      (hset : r = .statusSet .rx → ∀ i, bitAt value i = true → Fifo.watermarkField.Covers i)
      (hclear : r = .statusClear .rx → ∀ i, bitAt value i = true →
        Fifo.watermarkField.Covers i ∨ bitAt cleared i = true) :
      Spares cleared (.store b r.offset value)

theorem OnControl.spares {cleared : UInt32} {r : Request} (hr : OnControl r) :
    Spares cleared r := by
  cases hr with
  | load => exact .load nofun
  | store hr =>
      rcases hr with rfl | rfl | rfl
      · exact .store nofun nofun nofun
      · exact .store nofun nofun nofun
      · exact .store nofun nofun nofun

/-- What was received and sent is the same, and so are the bits of the receive status
but for the watermark and what was cleared. -/
structure KeepsStream (cleared : UInt32) (d d' : UartModel) : Prop where
  rx : d'.rx = d.rx
  sent : d'.sent = d.sent
  loopback : d'.loopback = d.loopback
  flags : ∀ i, ¬ Fifo.watermarkField.Covers i → bitAt d'.rxStored i = bitAt d.rxStored i ∨
    (bitAt cleared i = true ∧ bitAt d'.rxStored i = false)

theorem KeepsStream.refl (cleared : UInt32) (d : UartModel) : KeepsStream cleared d d :=
  ⟨rfl, rfl, rfl, fun _ _ => Or.inl rfl⟩

namespace KeepsStream

variable {cleared value : UInt32} {d e : UartModel} {r : Fifo.Register}

theorem load (h : KeepsStream cleared d e) (hr : r ≠ .data) :
    KeepsStream cleared d (e.load r.offset).2 := by
  cases r with
  | data => exact absurd rfl hr
  | status side | statusSet side | statusClear side =>
      cases side with
      | tx | rx => exact ⟨h.rx, h.sent, h.loopback, h.flags⟩
  | control | controlSet | controlClear => exact h

theorem store (h : KeepsStream cleared d e) (hr : r ≠ .data)
    (hset : r = .statusSet .rx → ∀ i, bitAt value i = true → Fifo.watermarkField.Covers i)
    (hclear : r = .statusClear .rx → ∀ i, bitAt value i = true →
      Fifo.watermarkField.Covers i ∨ bitAt cleared i = true) :
    KeepsStream cleared d (e.store r.offset value) := by
  have hoff : ∀ {i}, r = .statusSet .rx → ¬ Fifo.watermarkField.Covers i → bitAt value i = false :=
    fun hr' hi => Bool.eq_false_iff.mpr fun hv => hi (hset hr' _ hv)
  cases r with
  | data => exact absurd rfl hr
  | control | controlSet | controlClear => exact ⟨h.rx, h.sent, h.loopback, h.flags⟩
  | status side =>
      cases side with
      | tx | rx => exact ⟨h.rx, h.sent, h.loopback, h.flags⟩
  | statusSet side =>
      cases side with
      | tx => exact ⟨h.rx, h.sent, h.loopback, h.flags⟩
      | rx =>
          -- The command that empties the FIFO is no part of the watermark.
          have hcommand : (value &&& Fifo.clearCommand != 0) = false := by
            have hfield : Fifo.clearCommand = (Field.bit 31).mask := by decide
            rw [hfield]
            show (Field.bit 31).isSet value = false
            rw [Field.isSet_bit]
            exact hoff rfl (by decide)
          refine ⟨?_, h.sent, h.loopback, fun i hi => ?_⟩
          · show (if value &&& Fifo.clearCommand != 0 then [] else e.rx) = d.rx
            rw [hcommand, if_neg Bool.false_ne_true, h.rx]
          · have hsame : bitAt (e.rxStored ||| (value &&& ~~~Fifo.clearCommand)) i
                = bitAt e.rxStored i := by
              rw [bitAt_or, bitAt_and_not, hoff rfl hi, Bool.false_and, Bool.or_false]
            have hflags := h.flags i hi
            rwa [← hsame] at hflags
  | statusClear side =>
      cases side with
      | tx => exact ⟨h.rx, h.sent, h.loopback, h.flags⟩
      | rx =>
          refine ⟨h.rx, h.sent, h.loopback, fun i hi => ?_⟩
          show bitAt (e.rxStored &&& ~~~value) i = _ ∨ _ ∧ bitAt (e.rxStored &&& ~~~value) i = _
          rw [bitAt_and_not]
          cases hv : bitAt value i with
          | false =>
              rw [Bool.not_false, Bool.and_true]
              exact h.flags i hi
          | true =>
              rw [Bool.not_true, Bool.and_false]
              exact Or.inr ⟨(hclear rfl i hv).resolve_left hi, rfl⟩

theorem underflowed (h : KeepsStream cleared d e) (hd : d.underflowed = false) :
    e.underflowed = false := by
  rw [underflowed_eq_bitAt] at hd ⊢
  rcases h.flags 20 (by decide) with hsame | ⟨-, hoff⟩
  · rw [hsame, hd]
  · exact hoff

end KeepsStream

theorem Spares.keepsStream {cleared : UInt32} {d : UartModel} {r : Request} {v : r.Reply}
    (hr : Spares cleared r) (h : KeepsStream cleared d m.device)
    (hm : Machine.platform UartModel.bus r m = .returned v m') :
    KeepsStream cleared d m'.device := by
  cases hr with
  | load hr =>
      obtain ⟨e, he, rfl⟩ := Machine.exists_of_platform_load hm
      have hload := h.load hr
      rwa [Except.ok.inj he] at hload
  | store hr hset hclear =>
      obtain ⟨e, he, rfl⟩ := Machine.exists_of_platform_store hm
      have hstore := h.store hr hset hclear
      rwa [Except.ok.inj he] at hstore

end UartModel

end BoardSupport
