import Mathlib.Data.List.Induction
import BoardSupport.Proofs.Register.Values
import BoardSupport.Proofs.Uart.Calls

/-!
# Everything that changes a UART

Bytes arrive, the line raises errors, the transmit FIFO is held full, and the driver makes
calls that return, in any order and also such as empty the receive FIFO (`Reached`). Each of
these raises some of the stored bits of the receive status, clears some, or sets a watermark,
and leaves the others (`Effect`, `effect_call`). `Since` is what becomes of a bit that some
events raise and others clear; it can be told while they happen (`foldl_iff_since`).
-/

namespace BoardSupport

open Program
open Fifo (Flag RxError RxErrors Side)

/-! ## Stored bits -/

namespace UartModel

/-- The stored bits of a status. -/
def stored (d : UartModel) : Side → UInt32
  | .tx => d.txStored
  | .rx => d.rxStored

/-- The stored bits and the wiring of the line are the same. -/
structure SameStored (d d' : UartModel) : Prop where
  loopback : d'.loopback = d.loopback
  stored : ∀ side, d'.stored side = d.stored side

theorem SameStored.trans {d₁ d₂ d₃ : UartModel} (h : d₁.SameStored d₂) (h' : d₂.SameStored d₃) :
    d₁.SameStored d₃ :=
  ⟨h'.loopback.trans h.loopback, fun side => (h'.stored side).trans (h.stored side)⟩

theorem SameStored.of_eq {d d' : UartModel} (hloopback : d'.loopback = d.loopback)
    (htx : d'.txStored = d.txStored) (hrx : d'.rxStored = d.rxStored) : d.SameStored d' := by
  refine ⟨hloopback, fun side => ?_⟩
  cases side with
  | tx => exact htx
  | rx => exact hrx

/-- Emptying a FIFO stores no bit. -/
theorem sameStored_clearCommand (d : UartModel) (side : Side) :
    d.SameStored (d.store (Fifo.Register.statusSet side).offset Fifo.clearCommand) := by
  have hnothing : Fifo.clearCommand &&& ~~~Fifo.clearCommand = 0 := by decide
  have hsame : ∀ stored, stored ||| (Fifo.clearCommand &&& ~~~Fifo.clearCommand) = stored := by
    intro stored
    rw [hnothing, UInt32.or_zero]
  cases side with
  | tx => exact .of_eq rfl (hsame _) rfl
  | rx => exact .of_eq rfl rfl (hsame _)

end UartModel

/-- Bits beside the watermark do not count for it. -/
theorem value_watermark_or {word : UInt32}
    (h : ∀ i, Fifo.watermarkField.Covers i → bitAt word i = false) (stored : UInt32) :
    Fifo.watermarkField.value (stored ||| word) = Fifo.watermarkField.value stored := by
  refine Field.value_congr fun i hi => ?_
  rw [bitAt_or, h i hi, Bool.or_false]

theorem value_watermark_and_not {word : UInt32}
    (h : ∀ i, Fifo.watermarkField.Covers i → bitAt word i = false) (stored : UInt32) :
    Fifo.watermarkField.value (stored &&& ~~~word) = Fifo.watermarkField.value stored := by
  refine Field.value_congr fun i hi => ?_
  rw [bitAt_and_not, h i hi, Bool.not_false, Bool.and_true]

theorem bitAt_overflow_mask (i : Nat) : bitAt Flag.overflow.mask i = decide (i = 19) := by
  rw [Flag.mask_eq, Field.bitAt_bit_mask]
  rfl

theorem overflow_off (i : Nat) (hi : Fifo.watermarkField.Covers i) :
    bitAt Flag.overflow.mask i = false := by
  have hhigh : i < 16 := hi.2
  rw [bitAt_overflow_mask]
  exact decide_eq_false (by omega)

/-- The command that empties a FIFO is no part of a watermark. -/
theorem rewrite_watermark (stored level : UInt32) :
    stored &&& ~~~Fifo.watermarkField.mask |||
        (Fifo.watermarkField.put level &&& ~~~Fifo.clearCommand)
      = Fifo.watermarkField.rewrite stored level := by
  have hcommand : Fifo.clearCommand = (Field.bit 31).mask := by decide
  have hput : Fifo.watermarkField.put level &&& ~~~Fifo.clearCommand
      = Fifo.watermarkField.put level := by
    refine eq_of_bitAt fun i _ => ?_
    rw [bitAt_and_not, hcommand, Field.bitAt_bit_mask]
    cases hbit : bitAt (Fifo.watermarkField.put level) i with
    | false => rfl
    | true =>
        have hhigh : i < 16 := (Field.covers_of_bitAt_put hbit).2
        rw [decide_eq_false (p := i = 31) (by omega)]
        rfl
  rw [hput, Field.rewrite]

theorem value_rewrite_watermark (stored : UInt32) (level : UInt8) :
    Fifo.watermarkField.value (Fifo.watermarkField.rewrite stored level.toUInt32)
      = level.toNat := by
  rw [Field.value_rewrite]
  exact Nat.mod_eq_of_lt level.toNat_lt

namespace Uart

/-! ## Events -/

/-- The word has no other bits than those of the receive errors. -/
def Named (mask : UInt32) : Prop := ∀ i, bitAt mask i = true → 20 ≤ i ∧ i < 24

instance (mask : UInt32) : Decidable (Named mask) :=
  decidable_of_iff (∀ i < 32, bitAt mask i = true → 20 ≤ i ∧ i < 24)
    ⟨fun h i hi => h i (lt_of_bitAt hi) hi, fun h i _ => h i⟩

/-- Something that changes a UART. -/
inductive Event
  /-- Bytes arrive from outside. -/
  | arrive (bytes : List UInt8)
  /-- The transmit FIFO is full for the next readings of its status. -/
  | hold (polls : Nat)
  /-- The line raises receive errors. -/
  | raise (mask : UInt32)
  /-- A call has returned; so many received bytes were pending when it began. -/
  | call (command : Command) (pending : Nat)

/-- What has happened to a UART, in order, and where it is now. -/
inductive Reached (u : Uart) (start : Machine UartModel) : List Event → Machine UartModel → Prop
  | begin : Reached u start [] start
  | arrive {events : List Event} {m : Machine UartModel} (bytes : List UInt8)
      (h : Reached u start events m) :
      Reached u start (events ++ [.arrive bytes]) { m with device := m.device.receive bytes }
  | hold {events : List Event} {m : Machine UartModel} (polls : Nat)
      (h : Reached u start events m) :
      Reached u start (events ++ [.hold polls]) { m with device := m.device.holdFull polls }
  | raise {events : List Event} {m : Machine UartModel} {mask : UInt32} (hmask : Named mask)
      (h : Reached u start events m) :
      Reached u start (events ++ [.raise mask]) { m with device := m.device.raise mask }
  | call {events : List Event} {m m' : Machine UartModel} {command : Command} {answer : Answer}
      (hret : Returns (Machine.platform UartModel.bus) (u.perform command) m answer m')
      (hnamed : ∀ errors, command = .clearErrors errors → Named errors.bits)
      (h : Reached u start events m) :
      Reached u start (events ++ [.call command m.device.rx.length]) m'

namespace Event

/-- A byte that came back was lost, since the receive FIFO held as many as it takes. -/
def drops (loopback : Bool) : Event → Bool
  | .call (.transfer t) pending =>
    loopback && decide (UartModel.capacity - pending < t.outgoing.length)
  | _ => false

/-- The overflow is acknowledged. -/
def acknowledges : Event → Bool
  | .call (.clearOverflow .rx) _ => true
  | _ => false

/-- The line raises the error. -/
def raises (error : RxError) : Event → Bool
  | .raise mask => bitAt mask error.position
  | _ => false

/-- The error is cleared. -/
def clears (error : RxError) : Event → Bool
  | .call (.clearErrors errors) _ => errors.has error
  | _ => false

/-- The watermark that is set. -/
def level? (side : Side) : Event → Option UInt8
  | .call (.setWatermark side' level) _ => if side' = side then some level else none
  | _ => none

end Event

/-- The watermark that was set last, and 0 before any was. -/
def levelSet (side : Side) (events : List Event) : UInt8 :=
  (events.filterMap (Event.level? side)).getLastD 0

theorem levelSet_snoc (side : Side) (events : List Event) (e : Event) :
    levelSet side (events ++ [e]) = (e.level? side).getD (levelSet side events) := by
  rw [levelSet, List.filterMap_append]
  cases hlevel : e.level? side with
  | none => simp [hlevel, levelSet]
  | some level => simp [hlevel]

/-- Something happened, and it has not been undone since. -/
def Since (happened undone : Event → Bool) (events : List Event) : Prop :=
  ∃ before e after, events = before ++ e :: after ∧ happened e = true ∧
    ∀ e' ∈ after, undone e' = false

section Since

variable {happened undone happened' undone' : Event → Bool} {events : List Event} {e : Event}

theorem not_since_nil : ¬ Since happened undone [] := by
  rintro ⟨before, first, after, heq, -⟩
  exact absurd heq.symm (by simp)

theorem since_snoc : Since happened undone (events ++ [e]) ↔
    happened e = true ∨ Since happened undone events ∧ undone e = false := by
  constructor
  · rintro ⟨before, first, after, heq, hfirst, hafter⟩
    rcases List.eq_nil_or_concat after with rfl | ⟨between, last, rfl⟩
    · obtain ⟨rfl, hsame⟩ := List.append_inj' heq rfl
      cases hsame
      exact Or.inl hfirst
    · rw [List.concat_eq_append, ← List.cons_append, ← List.append_assoc] at heq
      obtain ⟨rfl, hsame⟩ := List.append_inj' heq rfl
      cases hsame
      rw [List.concat_eq_append, List.forall_mem_append, List.forall_mem_singleton] at hafter
      exact Or.inr ⟨⟨before, first, between, rfl, hfirst, hafter.1⟩, hafter.2⟩
  · rintro (he | ⟨⟨before, first, after, rfl, hfirst, hafter⟩, hkept⟩)
    · exact ⟨events, e, [], rfl, he, List.forall_mem_nil _⟩
    · refine ⟨before, first, after ++ [e], by simp, hfirst, ?_⟩
      exact List.forall_mem_append.mpr ⟨hafter, List.forall_mem_singleton.mpr hkept⟩

/-- It can be told while the events happen. -/
theorem foldl_iff_since :
    events.foldl (fun up e => happened e || up && !undone e) false = true ↔
      Since happened undone events := by
  induction events using List.reverseRecOn with
  | nil => exact ⟨fun h => absurd h Bool.false_ne_true, fun h => absurd h not_since_nil⟩
  | append_singleton events e ih =>
      rw [List.foldl_append, since_snoc, ← ih]
      simp

instance : Decidable (Since happened undone events) := decidable_of_iff _ foldl_iff_since

theorem Since.congr (h : Since happened undone events)
    (hhappened : ∀ e ∈ events, happened e = happened' e)
    (hundone : ∀ e ∈ events, undone e = undone' e) : Since happened' undone' events := by
  obtain ⟨before, first, after, rfl, hfirst, hafter⟩ := h
  refine ⟨before, first, after, rfl, ?_, fun e he => ?_⟩
  · rw [← hhappened first (by simp), hfirst]
  · rw [← hundone e (by simp [he]), hafter e he]

end Since

/-! ## What an event does to the stored bits -/

namespace Event

/-- The bits of the receive status that it raises. -/
def raised (loopback : Bool) : Event → UInt32
  | .raise mask => mask
  | .call command pending =>
    if (Event.call command pending).drops loopback then Flag.overflow.mask else 0
  | _ => 0

/-- The bits of the receive status that it clears for good. -/
def cleared : Event → UInt32
  | .call command _ => command.cleared
  | _ => 0

/-- What is raised and cleared by name are receive errors. -/
def Proper : Event → Prop
  | .raise mask => Named mask
  | .call (.clearErrors errors) _ => Named errors.bits
  | _ => True

end Event

/-- What an event does to the stored bits: it raises some of the receive status, clears some,
and may set a watermark. -/
structure Effect (e : Event) (d d' : UartModel) : Prop where
  loopback : d'.loopback = d.loopback
  flags : ∀ i, ¬ Fifo.watermarkField.Covers i → bitAt d'.rxStored i =
    (bitAt d.rxStored i && !bitAt e.cleared i || bitAt (e.raised d.loopback) i)
  watermark : ∀ side, Fifo.watermarkField.value (d'.stored side) =
    ((e.level? side).map UInt8.toNat).getD (Fifo.watermarkField.value (d.stored side))

theorem position_ne_overflow (error : RxError) : error.position ≠ 19 := by
  cases error with
  | underflow | noise | parity | frame => decide

theorem Named.off {mask : UInt32} (h : Named mask) (i : Nat)
    (hi : Fifo.watermarkField.Covers i) : bitAt mask i = false := by
  refine Bool.eq_false_iff.mpr fun hbit => ?_
  have hlow := (h i hbit).1
  have hhigh : i < 16 := hi.2
  omega

theorem Named.overflow {mask : UInt32} (h : Named mask) : bitAt mask 19 = false :=
  Bool.eq_false_iff.mpr fun hbit => absurd (h 19 hbit).1 (by decide)

namespace Effect

variable {e : Event} {d d' : UartModel}

/-- A bit that is neither cleared nor raised. -/
theorem bitAt_kept (w : UInt32) (i : Nat) : bitAt w i = (bitAt w i && !bitAt 0 i || bitAt 0 i) := by
  rw [bitAt_zero, Bool.not_false, Bool.and_true, Bool.or_false]

/-- Nothing is raised, cleared or set. -/
theorem of_same (hcleared : e.cleared = 0) (hraised : e.raised d.loopback = 0)
    (hlevel : ∀ side, e.level? side = none) (h : d.SameStored d') : Effect e d d' := by
  refine ⟨h.loopback, fun i _ => ?_, fun side => ?_⟩
  · have hrx : d'.rxStored = d.rxStored := h.stored .rx
    rw [hcleared, hraised, hrx]
    exact bitAt_kept _ i
  · rw [hlevel, h.stored]
    rfl

/-- Bits that are no part of the watermark are raised. -/
theorem of_raised {word : UInt32} (hcleared : e.cleared = 0) (hraised : e.raised d.loopback = word)
    (hlevel : ∀ side, e.level? side = none) (hloopback : d'.loopback = d.loopback)
    (htx : d'.txStored = d.txStored) (hrx : d'.rxStored = d.rxStored ||| word)
    (hword : ∀ i, Fifo.watermarkField.Covers i → bitAt word i = false) : Effect e d d' := by
  refine ⟨hloopback, fun i _ => ?_, fun side => ?_⟩
  · rw [hcleared, hraised, hrx, bitAt_zero, bitAt_or, Bool.not_false, Bool.and_true]
  · rw [hlevel]
    cases side with
    | tx => exact congrArg _ htx
    | rx => exact (congrArg _ hrx).trans (value_watermark_or hword _)

/-- Bits that are no part of the watermark are cleared. -/
theorem of_cleared {word : UInt32} (hcleared : e.cleared = word)
    (hraised : e.raised d.loopback = 0) (hlevel : ∀ side, e.level? side = none)
    (hloopback : d'.loopback = d.loopback) (htx : d'.txStored = d.txStored)
    (hrx : d'.rxStored = d.rxStored &&& ~~~word)
    (hword : ∀ i, Fifo.watermarkField.Covers i → bitAt word i = false) : Effect e d d' := by
  refine ⟨hloopback, fun i _ => ?_, fun side => ?_⟩
  · rw [hcleared, hraised, hrx, bitAt_zero, bitAt_and_not, Bool.or_false]
  · rw [hlevel]
    cases side with
    | tx => exact congrArg _ htx
    | rx => exact (congrArg _ hrx).trans (value_watermark_and_not hword _)

end Effect

/-! ### Events from outside -/

theorem effect_arrive (bytes : List UInt8) (d : UartModel) :
    Effect (.arrive bytes) d (d.receive bytes) :=
  .of_same rfl rfl (fun _ => rfl) (.of_eq rfl rfl rfl)

theorem effect_hold (polls : Nat) (d : UartModel) : Effect (.hold polls) d (d.holdFull polls) :=
  .of_same rfl rfl (fun _ => rfl) (.of_eq rfl rfl rfl)

theorem effect_raise {mask : UInt32} (h : Named mask) (d : UartModel) :
    Effect (.raise mask) d (d.raise mask) :=
  .of_raised rfl rfl (fun _ => rfl) rfl rfl rfl h.off

/-! ### Calls -/

variable {u : Uart} {m m' : Machine UartModel} {answer : Answer} {pending : Nat}

theorem effect_transfer {t : Transfer}
    (h : Returns (Machine.platform UartModel.bus) (u.perform (.transfer t)) m answer m') :
    Effect (.call (.transfer t) m.device.rx.length) m.device m'.device := by
  obtain ⟨taken, -, hstreams⟩ := u.returns_move h
  refine .of_raised rfl rfl (fun _ => rfl) hstreams.loopback (u.txStored_move h) ?_ ?_
  · rw [hstreams.rxStored]
    have hdrops : (Event.call (.transfer t) m.device.rx.length).drops m.device.loopback = true ↔
        m.device.Refuses t.outgoing := by
      rw [Event.drops, Bool.and_eq_true, decide_eq_true_iff]
      rfl
    rw [Event.raised, ite_cond_congr (propext hdrops)]
    split
    · rfl
    · exact (UInt32.or_zero).symm
  · intro i hi
    rw [Event.raised]
    split
    · exact overflow_off i hi
    · exact bitAt_zero i

/-- Whatever it is answered, the request keeps the stored bits. -/
def KeepsStored (r : Request) : Prop :=
  ∀ (v : r.Reply) (m m' : Machine UartModel), Machine.platform UartModel.bus r m = .returned v m' →
    m.device.SameStored m'.device

theorem keepsStored_status (b : Block) (side : Side) :
    KeepsStored (.load b (Fifo.Register.status side).offset) := by
  intro v m m' hm
  obtain ⟨d, hd, rfl⟩ := Machine.exists_of_platform_load hm
  cases side with
  | tx | rx =>
      cases hd
      exact .of_eq rfl rfl rfl

theorem keepsStored_control {r : Request} (hr : UartModel.OnControl r) : KeepsStored r := by
  intro v m m' hm
  obtain ⟨control, writes, rfl⟩ := hr.sameButControl hm
  exact .of_eq rfl rfl rfl

/-- A call of such requests raises, clears and sets nothing. -/
theorem effect_of_asks {command : Command} (hasks : Asks KeepsStored (u.perform command))
    (h : Returns (Machine.platform UartModel.bus) (u.perform command) m answer m')
    (hcleared : command.cleared = 0)
    (hraised : (Event.call command pending).raised m.device.loopback = 0)
    (hlevel : ∀ side, (Event.call command pending).level? side = none) :
    Effect (.call command pending) m.device m'.device := by
  have hkept : Throughout (Machine.platform UartModel.bus) (u.perform command) m
      fun s => m.device.SameStored s.device :=
    hasks.throughout (fun r s v s' hr hs hstep => hs.trans (hr v s s' hstep)) (.of_eq rfl rfl rfl)
  exact .of_same hcleared hraised hlevel (hkept.finish h)

/-- A call that writes one word leaves what the write does. -/
theorem device_of_write {r : Fifo.Register} {value : UInt32}
    (h : Returns (Machine.platform UartModel.bus)
      ((u.writeWord r value).bind fun _ => .done Answer.done) m answer m') :
    m'.device = m.device.store r.offset value := by
  have hwrite := (u.returns_writeWord r value m).bind (f := fun _ => .done Answer.done)
    (returns_done.mpr ⟨rfl, rfl⟩)
  obtain ⟨-, rfl⟩ := h.unique hwrite
  rfl

theorem effect_setWatermark {side : Side} {level : UInt8}
    (h : Returns (Machine.platform UartModel.bus) (u.perform (.setWatermark side level)) m answer
      m') :
    Effect (.call (.setWatermark side level) pending) m.device m'.device := by
  have hwrites := ((u.returns_writeWord (.statusClear side) Fifo.watermarkField.mask m).bind
    (f := fun _ => u.writeWord (.statusSet side) (Fifo.watermarkField.put level.toUInt32))
    (u.returns_writeWord (.statusSet side) _ _)).bind (f := fun _ => .done Answer.done)
    (returns_done.mpr ⟨rfl, rfl⟩)
  obtain ⟨-, rfl⟩ := h.unique hwrites
  have hvalue : ∀ stored, Fifo.watermarkField.value (stored &&& ~~~Fifo.watermarkField.mask |||
      (Fifo.watermarkField.put level.toUInt32 &&& ~~~Fifo.clearCommand)) = level.toNat := by
    intro stored
    rw [rewrite_watermark, value_rewrite_watermark]
  cases side with
  | tx =>
      refine ⟨rfl, fun i _ => Effect.bitAt_kept _ i, fun side => ?_⟩
      cases side with
      | tx => exact hvalue _
      | rx => rfl
  | rx =>
      refine ⟨rfl, fun i hi => ?_, fun side => ?_⟩
      · have hword := rewrite_watermark m.device.rxStored level.toUInt32
        have hbit := (congrArg (bitAt · i) hword).trans (Field.bitAt_rewrite hi _ _)
        exact hbit.trans (Effect.bitAt_kept _ i)
      · cases side with
        | tx => rfl
        | rx => exact hvalue _

/-- Of the words that calls clear, none meets the watermark. -/
theorem effect_clear {command : Command} {word : UInt32}
    (h : Returns (Machine.platform UartModel.bus)
      ((u.writeWord (.statusClear .rx) word).bind fun _ => .done Answer.done) m answer m')
    (hcleared : command.cleared = word)
    (hraised : (Event.call command pending).raised m.device.loopback = 0)
    (hlevel : ∀ side, (Event.call command pending).level? side = none)
    (hword : ∀ i, Fifo.watermarkField.Covers i → bitAt word i = false) :
    Effect (.call command pending) m.device m'.device := by
  rw [device_of_write h]
  exact .of_cleared hcleared hraised hlevel rfl rfl rfl hword

theorem effect_clearFifo {side : Side}
    (h : Returns (Machine.platform UartModel.bus) (u.perform (.clearFifo side)) m answer m') :
    Effect (.call (.clearFifo side) pending) m.device m'.device := by
  rw [device_of_write h]
  exact .of_same rfl rfl (fun _ => rfl) (m.device.sameStored_clearCommand side)

theorem effect_clearOverflow {side : Side}
    (h : Returns (Machine.platform UartModel.bus) (u.perform (.clearOverflow side)) m answer m') :
    Effect (.call (.clearOverflow side) pending) m.device m'.device := by
  cases side with
  | rx => exact effect_clear h rfl rfl (fun _ => rfl) overflow_off
  | tx =>
      rw [device_of_write (r := .statusClear .tx) h]
      refine ⟨rfl, fun i _ => Effect.bitAt_kept _ i, fun side => ?_⟩
      cases side with
      | tx => exact value_watermark_and_not overflow_off _
      | rx => rfl

theorem effect_call {command : Command}
    (hret : Returns (Machine.platform UartModel.bus) (u.perform command) m answer m')
    (hnamed : ∀ errors, command = .clearErrors errors → Named errors.bits) :
    Effect (.call command m.device.rx.length) m.device m'.device := by
  have hcontrol : ∀ {α : Type} {x : Program α}, Asks UartModel.OnControl x → Asks KeepsStored x :=
    fun hx => hx.mono fun _ hr => keepsStored_control hr
  cases command with
  | init config =>
      have hasks : Asks UartModel.OnControl (u.init config) := u.asks_writeControl (Or.inl rfl)
      have hstored : Asks KeepsStored (u.perform (.init config)) :=
        (hcontrol hasks).bind fun _ => .done _
      exact effect_of_asks hstored hret rfl rfl fun _ => rfl
  | set setting =>
      by_cases hrefused : Update.Refused (.set setting)
      · have hfault : u.perform (.set setting) = .fault .divideByZero := by
          show (u.change setting).bind _ = _
          rw [u.change_refused hrefused]
          rfl
        rw [hfault] at hret
        obtain ⟨fuel, hrun⟩ := hret
        cases hrun
      · have hasks := hcontrol (u.asks_change hrefused)
        exact effect_of_asks (hasks.bind fun _ => .done _) hret rfl rfl fun _ => rfl
  | get query =>
      exact effect_of_asks (hcontrol (u.asks_readSetting query)) hret rfl rfl fun _ => rfl
  | query query =>
      have hasks := u.asks_readStatus (keepsStored_status u.block) query
      exact effect_of_asks hasks hret rfl rfl fun _ => rfl
  | setWatermark side level => exact effect_setWatermark hret
  | clearFifo side => exact effect_clearFifo hret
  | clearOverflow side => exact effect_clearOverflow hret
  | clearErrors errors => exact effect_clear hret rfl rfl (fun _ => rfl) (hnamed errors rfl).off
  | transfer t => exact effect_transfer hret

end Uart

end BoardSupport
