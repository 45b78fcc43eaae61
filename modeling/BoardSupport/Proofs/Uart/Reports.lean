import BoardSupport.Proofs.Uart.Events
import BoardSupport.Proofs.Uart.Queries
import BoardSupport.Proofs.Uart.RoundTrip

/-!
# The status queries tell what has happened

After any events a stored bit is set when it was raised and has not been cleared since, and
a watermark is the one that was set last (`Standing`). So the stored bits are off the level
and the flags that follow from it (`Standing.levelFree`), whatever the level is, and
`status_tells` says what each query returns in terms of the events and of the bytes that are
pending.
-/

namespace BoardSupport.Uart

open Program
open Fifo (RxError RxErrors Side)

variable {u : Uart} {m : Machine UartModel}

/-! ## After any events -/

/-- The stored bits, by what has happened. -/
structure Standing (loopback : Bool) (events : List Event) (d : UartModel) : Prop where
  wired : d.loopback = loopback
  flags : ∀ i, ¬ Fifo.watermarkField.Covers i → (bitAt d.rxStored i = true ↔
    Since (fun e => bitAt (e.raised loopback) i) (fun e => bitAt e.cleared i) events)
  watermark : ∀ side, Fifo.watermarkField.value (d.stored side) = (levelSet side events).toNat

namespace Standing

variable {loopback : Bool} {events : List Event} {d d' : UartModel} {e : Event}

theorem start : Standing loopback [] { loopback } where
  wired := rfl
  flags := by
    intro i _
    constructor
    · intro h
      rw [show bitAt _ i = false from bitAt_zero i] at h
      cases h
    · intro h
      exact absurd h not_since_nil
  watermark := by
    intro side
    have hzero : Fifo.watermarkField.value 0 = 0 := by decide
    cases side with
    | tx | rx => exact hzero

theorem snoc (h : Standing loopback events d) (heffect : Effect e d d') :
    Standing loopback (events ++ [e]) d' := by
  refine ⟨heffect.loopback.trans h.wired, fun i hi => ?_, fun side => ?_⟩
  · have hflags := h.flags i hi
    rw [heffect.flags i hi, h.wired, since_snoc, ← hflags, Bool.or_eq_true, Bool.and_eq_true,
      Bool.not_eq_true', or_comm]
  · rw [heffect.watermark, h.watermark, levelSet_snoc]
    cases e.level? side with
    | none => rfl
    | some level => rfl

/-- Only the stored bits and the wiring count. -/
theorem of_same (h : Standing loopback events d) (hsame : d.SameStored d') :
    Standing loopback events d' := by
  refine ⟨hsame.loopback.trans h.wired, ?_, fun side => ?_⟩
  · have hrx : d'.rxStored = d.rxStored := hsame.stored .rx
    rw [hrx]
    exact h.flags
  · rw [hsame.stored side]
    exact h.watermark side

end Standing

theorem Reached.standing {start : Machine UartModel} {loopback : Bool} {events : List Event}
    (hstart : start.device = { loopback }) (h : Reached u start events m) :
    Standing loopback events m.device := by
  induction h with
  | begin =>
      rw [hstart]
      exact Standing.start
  | arrive bytes _ ih => exact ih.snoc (effect_arrive bytes _)
  | hold polls _ ih => exact ih.snoc (effect_hold polls _)
  | raise hmask _ ih => exact ih.snoc (effect_raise hmask _)
  | call hret hnamed _ ih => exact ih.snoc (effect_call hret hnamed)

theorem Reached.proper {start : Machine UartModel} {events : List Event}
    (h : Reached u start events m) : ∀ e ∈ events, e.Proper := by
  induction h with
  | begin => exact List.forall_mem_nil _
  | arrive _ _ ih | hold _ _ ih =>
      exact List.forall_mem_append.mpr ⟨ih, List.forall_mem_singleton.mpr trivial⟩
  | raise hmask _ ih => exact List.forall_mem_append.mpr ⟨ih, List.forall_mem_singleton.mpr hmask⟩
  | @call _ _ _ command _ _ hnamed _ ih =>
      refine List.forall_mem_append.mpr ⟨ih, List.forall_mem_singleton.mpr ?_⟩
      cases command with
      | clearErrors errors => exact hnamed errors rfl
      | _ => trivial

/-! ## What the events say about single bits -/

namespace Event

variable {loopback : Bool} {e : Event} {i : Nat}

/-- A call raises no other bit than the overflow flag. -/
theorem bitAt_raised_call (command : Command) (pending : Nat) (i : Nat) :
    bitAt ((Event.call command pending).raised loopback) i
      = ((Event.call command pending).drops loopback && decide (i = 19)) := by
  rw [raised]
  cases (Event.call command pending).drops loopback with
  | true => rw [if_pos rfl, bitAt_overflow_mask, Bool.true_and]
  | false => rw [if_neg Bool.false_ne_true, bitAt_zero, Bool.false_and]

theorem le_of_raised (hproper : e.Proper) (h : bitAt (e.raised loopback) i = true) : 19 ≤ i := by
  cases e with
  | arrive _ | hold _ =>
      have hnone : bitAt 0 i = true := h
      rw [bitAt_zero] at hnone
      cases hnone
  | raise mask => exact Nat.le_of_succ_le (hproper i h).1
  | call command pending =>
      rw [bitAt_raised_call, Bool.and_eq_true, decide_eq_true_iff] at h
      exact Nat.le_of_eq h.2.symm

theorem bitAt_raised_overflow (hproper : e.Proper) :
    bitAt (e.raised loopback) 19 = e.drops loopback := by
  cases e with
  | arrive _ | hold _ => exact bitAt_zero 19
  | raise mask => exact Named.overflow hproper
  | call command pending => rw [bitAt_raised_call, decide_eq_true rfl, Bool.and_true]

theorem bitAt_cleared_overflow (hproper : e.Proper) : bitAt e.cleared 19 = e.acknowledges := by
  cases e with
  | arrive _ | hold _ | raise _ => exact bitAt_zero 19
  | call command pending =>
      cases command with
      | clearErrors errors => exact Named.overflow hproper
      | clearOverflow side =>
          cases side with
          | tx => exact bitAt_zero 19
          | rx => exact bitAt_overflow_mask 19
      | init _ | set _ | get _ | query _ | setWatermark _ _ | clearFifo _ | transfer _ =>
          exact bitAt_zero 19

theorem bitAt_raised_error (error : RxError) :
    bitAt (e.raised loopback) error.position = e.raises error := by
  cases e with
  | arrive _ | hold _ => exact bitAt_zero _
  | raise mask => rfl
  | call command pending =>
      rw [bitAt_raised_call, decide_eq_false (position_ne_overflow error), Bool.and_false]
      rfl

theorem bitAt_cleared_error (error : RxError) :
    bitAt e.cleared error.position = e.clears error := by
  cases e with
  | arrive _ | hold _ | raise _ => exact bitAt_zero _
  | call command pending =>
      cases command with
      | clearErrors errors => exact (RxErrors.has_eq_bitAt errors error).symm
      | clearOverflow side =>
          cases side with
          | tx => exact bitAt_zero _
          | rx =>
              exact (bitAt_overflow_mask _).trans (decide_eq_false (position_ne_overflow error))
      | init _ | set _ | get _ | query _ | setWatermark _ _ | clearFifo _ | transfer _ =>
          exact bitAt_zero _

end Event

namespace Standing

variable {loopback : Bool} {events : List Event} {d : UartModel}

theorem levelFree (h : Standing loopback events d) (hproper : ∀ e ∈ events, e.Proper) :
    UartModel.LevelFree d.rxStored := by
  intro i hbit
  by_cases hi : Fifo.watermarkField.Covers i
  · exact Or.inl hi
  · obtain ⟨before, e, after, rfl, hraised, -⟩ := (h.flags i hi).mp hbit
    exact Or.inr (Event.le_of_raised (hproper e (by simp)) hraised)

theorem overflow (h : Standing loopback events d) (hproper : ∀ e ∈ events, e.Proper) :
    bitAt d.rxStored 19 = decide (Since (Event.drops loopback) Event.acknowledges events) := by
  rw [Bool.eq_iff_iff, decide_eq_true_iff, h.flags 19 (by decide)]
  have hraised : ∀ e ∈ events, bitAt (e.raised loopback) 19 = e.drops loopback :=
    fun e he => Event.bitAt_raised_overflow (hproper e he)
  have hcleared : ∀ e ∈ events, bitAt e.cleared 19 = e.acknowledges :=
    fun e he => Event.bitAt_cleared_overflow (hproper e he)
  constructor
  · intro hsince
    exact hsince.congr hraised hcleared
  · intro hsince
    exact hsince.congr (fun e he => (hraised e he).symm) fun e he => (hcleared e he).symm

theorem error (h : Standing loopback events d) (e : RxError) :
    bitAt d.rxStored e.position = decide (Since (Event.raises e) (Event.clears e) events) := by
  have hoff : ¬ Fifo.watermarkField.Covers e.position := by
    cases e with
    | underflow | noise | parity | frame => decide
  have hraised : (fun event : Event => bitAt (event.raised loopback) e.position)
      = Event.raises e := funext fun event => event.bitAt_raised_error e
  have hcleared : (fun event : Event => bitAt event.cleared e.position) = Event.clears e :=
    funext fun event => event.bitAt_cleared_error e
  rw [Bool.eq_iff_iff, decide_eq_true_iff, h.flags _ hoff, hraised, hcleared]

end Standing

/-! ## What the queries return -/

/-- Each status query returns what the events and the pending bytes say. Only a reading of the
transmit status changes anything, which is how often that still shows the FIFO full. -/
structure Reports (u : Uart) (loopback : Bool) (events : List Event) (m : Machine UartModel) :
    Prop where
  empty : Returns (Machine.platform UartModel.bus) (u.hasFlag .rx .empty) m
    (decide (m.device.rx.length = 0)) m
  full : Returns (Machine.platform UartModel.bus) (u.hasFlag .rx .full) m
    (decide (1024 ≤ m.device.rx.length)) m
  fillLevel : Returns (Machine.platform UartModel.bus) (u.fillLevel .rx) m
    (UInt8.ofNat (min m.device.rx.length 255)) m
  rxWatermark : Returns (Machine.platform UartModel.bus) (u.watermark .rx) m
    (levelSet .rx events) m
  txWatermark : ∃ m', Returns (Machine.platform UartModel.bus) (u.watermark .tx) m
    (levelSet .tx events) m'
  watermarkReached : Returns (Machine.platform UartModel.bus) (u.hasFlag .rx .watermarkReached) m
    (decide (levelSet .rx events ≠ 0 ∧
      (levelSet .rx events).toNat ≤ m.device.rx.length % 0x100000000)) m
  overflow : Returns (Machine.platform UartModel.bus) (u.hasFlag .rx .overflow) m
    (decide (Since (Event.drops loopback) Event.acknowledges events)) m
  error : ∀ e, Returns (Machine.platform UartModel.bus) (u.hasError e) m
    (decide (Since (Event.raises e) (Event.clears e) events)) m

theorem Standing.reports {loopback : Bool} {events : List Event}
    (h : Standing loopback events m.device) (hproper : ∀ e ∈ events, e.Proper) :
    Reports u loopback events m := by
  have hfree := h.levelFree hproper
  have hrx : Fifo.watermarkField.value m.device.rxStored = (levelSet .rx events).toNat :=
    h.watermark .rx
  have htx : Fifo.watermarkField.value m.device.txStored = (levelSet .tx events).toNat :=
    h.watermark .tx
  constructor
  · have hempty := u.returns_rxFlag m .empty
    have hstored := hfree.bitAt_eq_false (i := 17) (by decide) (by decide)
    rwa [UartModel.rxStatus, UartModel.empty_statusWord hstored] at hempty
  · have hfull := u.returns_rxFlag m .full
    have hstored := hfree.bitAt_eq_false (i := 16) (by decide) (by decide)
    rwa [UartModel.rxStatus, UartModel.full_statusWord hstored] at hfull
  · have hfill := u.returns_rxFillLevel m
    rwa [UartModel.rxStatus, UartModel.fillLevel_statusWord hfree] at hfill
  · have hwatermark := u.returns_rxWatermark m
    rwa [UartModel.rxStatus, UartModel.watermark_statusWord hrx] at hwatermark
  · have hwatermark := u.returns_txWatermark m
    have hvalue : (⟨m.device.txStatus⟩ : Fifo.Status).watermark = levelSet .tx events := by
      rw [UartModel.txStatus]
      split
      · exact UartModel.watermark_statusWord htx
      · exact UartModel.watermark_statusWord htx
    rw [hvalue] at hwatermark
    exact ⟨_, hwatermark⟩
  · have hreached := u.returns_rxFlag m .watermarkReached
    rwa [UartModel.rxStatus, UartModel.watermarkReached_statusWord hrx hfree] at hreached
  · have hoverflow := u.returns_rxFlag m .overflow
    have hvalue : (⟨m.device.rxStatus⟩ : Fifo.Status).has .overflow = bitAt m.device.rxStored 19 :=
      m.device.overflowed_eq_bitAt
    rwa [hvalue, h.overflow hproper] at hoverflow
  · intro e
    have herror := u.returns_hasError m e
    rwa [h.error e] at herror

/-- **The status queries tell the truth.** After any events: the receive FIFO is shown empty,
full and filled as the pending bytes say; both watermarks are those set last, and the
receive one is shown reached when it is set and the number of pending bytes, as a word of 32
bits, is no smaller; the overflow flag is up when a byte that came back was lost and no
acknowledgement has come since; an error is up when it was raised and has not been cleared
since. Emptying the receive FIFO leaves no byte pending, and the queries then tell the same
of everything else. -/
theorem status_tells (u : Uart) (start : Machine UartModel) (loopback : Bool)
    (hstart : start.device = { loopback }) {events : List Event}
    (h : Reached u start events m) :
    Reports u loopback events m ∧
      ∃ m', Returns (Machine.platform UartModel.bus) (u.clearFifo .rx) m () m' ∧
        m'.device.rx = [] ∧ Reports u loopback events m' := by
  have hstanding := h.standing hstart
  refine ⟨hstanding.reports h.proper, _,
    u.returns_writeWord (.statusSet .rx) Fifo.clearCommand m, ?_, ?_⟩
  · show (if Fifo.clearCommand &&& Fifo.clearCommand != 0 then [] else m.device.rx) = []
    exact if_pos (by decide)
  · exact (hstanding.of_same (m.device.sameStored_clearCommand .rx)).reports h.proper

/-- Three bytes are past a watermark of two, and of two errors one is cleared. In another run
a byte comes back to a full FIFO. -/
theorem status_tells_errors :
    let u : Uart := ⟨MemoryMap.full.uart0⟩
    let p := Machine.platform UartModel.bus
    let start : Machine UartModel := { device := {} }
    let events : List Event := [.call (.setWatermark .rx 2) 0, .arrive [0x61, 0x62, 0x63],
      .raise 0xC00000, .call (.clearErrors ⟨0x400000⟩) 3]
    let m : Machine UartModel :=
      { device := { rx := [0x61, 0x62, 0x63], rxStored := 0x800200, writes := 3 } }
    start.device = { loopback := true } ∧
    (Reached u start events m ∧
      Returns p (u.watermark .rx) m 2 m ∧
      Returns p (u.hasFlag .rx .watermarkReached) m true m ∧
      Returns p (u.hasError .frame) m true m ∧ Returns p (u.hasError .parity) m false m ∧
      Returns p (u.hasFlag .rx .overflow) m false m ∧
      ∃ m', Returns p (u.clearFifo .rx) m () m' ∧ Returns p (u.hasError .frame) m' true m') ∧
    ∃ m, Reached u start
        [.arrive (List.replicate 1024 0), .call (.transfer (.writeByte 0x21)) 1024] m ∧
      Returns p (u.hasFlag .rx .overflow) m true m := by
  have hset : Returns (Machine.platform UartModel.bus)
      (perform ⟨MemoryMap.full.uart0⟩ (.setWatermark .rx 2)) { device := {} } .done
      { device := { rxStored := 0x200, writes := 2 } } := ⟨1, rfl⟩
  have hclear : Returns (Machine.platform UartModel.bus)
      (perform ⟨MemoryMap.full.uart0⟩ (.clearErrors ⟨0x400000⟩))
      { device := { rx := [0x61, 0x62, 0x63], rxStored := 0xC00200, writes := 2 } } .done
      { device := { rx := [0x61, 0x62, 0x63], rxStored := 0x800200, writes := 3 } } := ⟨1, rfl⟩
  intro u p start events m
  have hwatermark : Reached u start [.call (.setWatermark .rx 2) 0]
      { device := { rxStored := 0x200, writes := 2 } } := .call hset nofun .begin
  have harrived : Reached u start [.call (.setWatermark .rx 2) 0, .arrive [0x61, 0x62, 0x63]]
      { device := { rx := [0x61, 0x62, 0x63], rxStored := 0x200, writes := 2 } } :=
    .arrive [0x61, 0x62, 0x63] hwatermark
  have hraised : Reached u start
      [.call (.setWatermark .rx 2) 0, .arrive [0x61, 0x62, 0x63], .raise 0xC00000]
      { device := { rx := [0x61, 0x62, 0x63], rxStored := 0xC00200, writes := 2 } } :=
    .raise (by decide) harrived
  have hreached : Reached u start events m := by
    refine .call hclear ?_ hraised
    rintro _ ⟨rfl⟩
    decide
  obtain ⟨hreports, m', hemptied, -, hkept⟩ := u.status_tells start true rfl hreached
  refine ⟨rfl, ⟨hreached, hreports.rxWatermark, ?_, ?_, ?_, ?_, m', hemptied, ?_⟩, ?_⟩
  · exact hreports.watermarkReached
  · exact hreports.error .frame
  · exact hreports.error .parity
  · exact hreports.overflow
  · exact hkept.error .frame
  · let full : Machine UartModel := { device := { rx := List.replicate 1024 0 } }
    have hfull : Reached u start [.arrive (List.replicate 1024 0)] full :=
      .arrive (List.replicate 1024 0) .begin
    have hwrite : Returns p (u.perform (.transfer (.writeByte 0x21))) full .done
        { device := full.device.written [0x21] } :=
      (u.completes_writeByte (m := full) (bitAt_zero 16) 0x21).returns.map fun _ => Answer.done
    have hsent := Reached.call hwrite nofun hfull
    rw [show full.device.rx.length = 1024 from List.length_replicate] at hsent
    obtain ⟨hdropped, -⟩ := u.status_tells start true rfl hsent
    exact ⟨_, hsent, hdropped.overflow⟩

/-- The number of pending bytes wraps: with 2 ^ 32 of them a watermark of one byte is not
shown reached. -/
theorem watermarkReached_wraps :
    let u : Uart := ⟨MemoryMap.full.uart0⟩
    let start : Machine UartModel := { device := {} }
    let events : List Event :=
      [.call (.setWatermark .rx 1) 0, .arrive (List.replicate 0x100000000 0)]
    ∃ m, Reached u start events m ∧ m.device.rx.length = 0x100000000 ∧
      levelSet .rx events = 1 ∧
      Returns (Machine.platform UartModel.bus) (u.hasFlag .rx .watermarkReached) m false m := by
  have hset : Returns (Machine.platform UartModel.bus)
      (perform ⟨MemoryMap.full.uart0⟩ (.setWatermark .rx 1)) { device := {} } .done
      { device := { rxStored := 0x100, writes := 2 } } := ⟨1, rfl⟩
  intro u start
  have hwatermark : Reached u start [.call (.setWatermark .rx 1) 0]
      { device := { rxStored := 0x100, writes := 2 } } := .call hset nofun .begin
  -- Only the number of the bytes counts: the list itself is never looked at.
  have hmany : ∀ bytes : List UInt8, bytes.length = 0x100000000 →
      ∃ m, Reached u start [.call (.setWatermark .rx 1) 0, .arrive bytes] m ∧
        m.device.rx.length = 0x100000000 ∧
        levelSet .rx [.call (.setWatermark .rx 1) 0, .arrive bytes] = 1 ∧
        Returns (Machine.platform UartModel.bus) (u.hasFlag .rx .watermarkReached) m false m := by
    intro bytes hlength
    let m : Machine UartModel := { device := { rx := bytes, rxStored := 0x100, writes := 2 } }
    have hpending : m.device.rx.length = 0x100000000 := hlength
    have hreached : Reached u start [.call (.setWatermark .rx 1) 0, .arrive bytes] m :=
      .arrive bytes hwatermark
    have hlevel : levelSet .rx [.call (.setWatermark .rx 1) 0, .arrive bytes] = 1 := rfl
    have hquery := ((hreached.standing rfl).reports (u := u) hreached.proper).watermarkReached
    rw [hlevel, hpending] at hquery
    exact ⟨m, hreached, hpending, hlevel, hquery⟩
  exact hmany _ List.length_replicate

end BoardSupport.Uart
