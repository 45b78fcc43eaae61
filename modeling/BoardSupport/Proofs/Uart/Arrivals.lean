import BoardSupport.Device.Machine
import BoardSupport.Device.Storage
import BoardSupport.Proofs.Uart.Transfers

/-!
# Bytes that arrive while the driver polls

A driver that waits for a byte reads the receive status: some times while the FIFO is empty
(`Wait`), once more when the byte is there, and then it takes the byte from the data
register (`Arrival`). The words of these readings may hold anything else. On any platform
that answers so, a blocking read makes these exchanges and no others
(`Uart.completes_readByte`), and a wait that has been begun can be gone on with later
(`Uart.completes_readByte_iff`).

A bounded read ends with the byte where the wait is shorter than its bound, and with
nothing taken where it is not. `Uart.readByteWithin_agrees` compares it with the blocking
one on any platform.
-/

namespace BoardSupport

open Program
open Fifo (Flag Side Status)

namespace Uart

/-- Readings of the receive status that all show it empty: bit 17 is set. -/
structure Wait where
  words : List UInt32
  empty : ∀ word ∈ words, bitAt word 17 = true

namespace Wait

def polls (w : Wait) : Nat := w.words.length

def readings (b : Block) (w : Wait) : List Exchange := w.words.map (.read b (.status .rx))

def nil : Wait := ⟨[], List.forall_mem_nil _⟩

/-- One reading more, before the others. -/
def cons (word : UInt32) (h : bitAt word 17 = true) (w : Wait) : Wait where
  words := word :: w.words
  empty := List.forall_mem_cons.mpr ⟨h, w.empty⟩

end Wait

/-- A byte that comes after a wait: a reading of the receive status shows it, and the word
then read from the data register holds it in its low bits. -/
structure Arrival where
  wait : Wait
  shown : UInt32
  shows : bitAt shown 17 = false
  word : UInt32

namespace Arrival

def byte (a : Arrival) : UInt8 := a.word.toUInt8

/-- What is read while the byte arrives and is taken. -/
def exchanges (b : Block) (a : Arrival) : List Exchange :=
  a.wait.readings b ++ [.read b (.status .rx) a.shown, .read b .data a.word]

end Arrival

variable {σ : Type} (u : Uart) {p : Platform σ} {s t t' : σ} {word : UInt32} {rest : List Exchange}

/-! ## One attempt -/

theorem completes_hasFlag (side : Side) (flag : Flag)
    (h : Answered p [.read u.block (.status side) word] s t) :
    Completes p (u.hasFlag side flag) s [.read u.block (.status side) word]
      (bitAt word flag.position) t := by
  have hread : Completes p (u.readWord (.status side)) s [.read u.block (.status side) word]
      word t := completes_request (Answered.singleton_iff.mp h)
  have hflag := (hread.map Status.mk).map fun status => status.has flag
  rw [Status.has_eq_bitAt] at hflag
  exact hflag

/-- An attempt that finds the FIFO empty takes nothing. -/
theorem completes_tryReadByte_none (hempty : bitAt word 17 = true)
    (h : Answered p [.read u.block (.status .rx) word] s t) :
    Completes p u.tryReadByte s [.read u.block (.status .rx) word] none t := by
  have hflag := u.completes_hasFlag .rx .empty h
  rw [show bitAt word Flag.empty.position = true from hempty] at hflag
  exact hflag.bind_done rfl

/-- An attempt that finds a byte takes it. -/
theorem completes_tryReadByte_some {shown : UInt32} (hshows : bitAt shown 17 = false)
    (h : Answered p [.read u.block (.status .rx) shown, .read u.block .data word] s t) :
    Completes p u.tryReadByte s
      [.read u.block (.status .rx) shown, .read u.block .data word] (some word.toUInt8) t := by
  obtain ⟨mid, hstatus, hdata⟩ := Answered.first_iff.mp h
  have hflag := u.completes_hasFlag .rx .empty hstatus
  have hread : Completes p (u.readWord .data) mid [.read u.block .data word] word t :=
    completes_request (Answered.singleton_iff.mp hdata)
  have hbyte := hread.map fun word => some word.toUInt8
  rw [show bitAt shown Flag.empty.position = false from hshows] at hflag
  exact hflag.bind hbyte

/-! ## The blocking read -/

/-- Over a wait the blocking read goes on as it would begin there. -/
theorem completes_readByte_iff (w : Wait) (h : Answered p (w.readings u.block) s t)
    {trace : List Exchange} {byte : UInt8} :
    Completes p u.readByte s trace byte t' ↔
      ∃ rest, trace = w.readings u.block ++ rest ∧ Completes p u.readByte t rest byte t' := by
  obtain ⟨words, hempty⟩ := w
  induction words generalizing s trace with
  | nil =>
      cases h
      simp [Wait.readings]
  | cons word words ih =>
      obtain ⟨hword, hwords⟩ := List.forall_mem_cons.mp hempty
      obtain ⟨mid, hfirst, hmore⟩ := Answered.first_iff.mp h
      have hnone := u.completes_tryReadByte_none hword hfirst
      constructor
      · intro hread
        obtain ⟨later, rfl, hlater⟩ := hnone.poll_iff.mp hread
        obtain ⟨rest, rfl, hrest⟩ := (ih hwords hmore).mp hlater
        exact ⟨rest, rfl, hrest⟩
      · rintro ⟨rest, rfl, hrest⟩
        exact hnone.poll_again ((ih hwords hmore).mpr ⟨rest, rfl, hrest⟩)

/-- A byte that arrives is taken, and nothing else is accessed. -/
theorem completes_readByte (a : Arrival) (h : Answered p (a.exchanges u.block) s t) :
    Completes p u.readByte s (a.exchanges u.block) a.byte t := by
  obtain ⟨mid, hwait, hbyte⟩ := Answered.append_iff.mp h
  refine (u.completes_readByte_iff a.wait hwait).mpr ⟨_, rfl, ?_⟩
  exact Completes.poll_leave (u.completes_tryReadByte_some a.shows hbyte)

/-! ## The bounded read -/

/-- A wait uses up as many polls as it has readings. -/
theorem completes_readByteWithin_wait (w : Wait) (h : Answered p (w.readings u.block) s t)
    {maxPolls : Nat} {result : Except DriverError UInt8}
    (hrest : Completes p (u.readByteWithin maxPolls) t rest result t') :
    Completes p (u.readByteWithin (w.polls + maxPolls)) s (w.readings u.block ++ rest) result
      t' := by
  obtain ⟨words, hempty⟩ := w
  induction words generalizing s with
  | nil =>
      cases h
      rw [show Wait.polls ⟨[], hempty⟩ + maxPolls = maxPolls from Nat.zero_add maxPolls]
      exact hrest
  | cons word words ih =>
      obtain ⟨hword, hwords⟩ := List.forall_mem_cons.mp hempty
      obtain ⟨mid, hfirst, hmore⟩ := Answered.first_iff.mp h
      rw [show Wait.polls ⟨word :: words, hempty⟩ + maxPolls
        = Wait.polls ⟨words, hwords⟩ + maxPolls + 1 from Nat.succ_add _ _]
      exact (u.completes_tryReadByte_none hword hfirst).bind (ih hwords hmore)

theorem completes_readByteWithin_ok (a : Arrival) (h : Answered p (a.exchanges u.block) s t)
    {maxPolls : Nat} (hless : a.wait.polls < maxPolls) :
    Completes p (u.readByteWithin maxPolls) s (a.exchanges u.block) (.ok a.byte) t := by
  obtain ⟨mid, hwait, hbyte⟩ := Answered.append_iff.mp h
  obtain ⟨more, rfl⟩ : ∃ more, maxPolls = a.wait.polls + (more + 1) :=
    ⟨maxPolls - a.wait.polls - 1, by omega⟩
  refine u.completes_readByteWithin_wait a.wait hwait ?_
  -- The next poll is still within the bound, and finds the byte.
  have hlast := u.completes_tryReadByte_some a.shows hbyte
  exact hlast.bind_done rfl

theorem completes_readByteWithin_timeout (w : Wait) (h : Answered p (w.readings u.block) s t) :
    Completes p (u.readByteWithin w.polls) s (w.readings u.block) (.error .timeout) t := by
  have hnone : Completes p (u.readByteWithin 0) t [] (.error .timeout) t :=
    completes_done.mpr ⟨rfl, rfl, rfl⟩
  have hall := u.completes_readByteWithin_wait w h hnone
  rw [List.append_nil, Nat.add_zero] at hall
  exact hall

/-- Where the block can be read, so many polls find a byte or nothing but an empty FIFO. -/
theorem exists_arrival_or_wait {b : Block}
    (hreads : ∀ (r : Fifo.Register) (s : σ), ∃ word t, p (.load b r.offset) s = .returned word t)
    (maxPolls : Nat) (s : σ) :
    (∃ (a : Arrival) (t : σ), Answered p (a.exchanges b) s t ∧ a.wait.polls < maxPolls) ∨
      ∃ (w : Wait) (t : σ), Answered p (w.readings b) s t ∧ w.polls = maxPolls := by
  induction maxPolls generalizing s with
  | zero => exact Or.inr ⟨.nil, s, .nil s, rfl⟩
  | succ maxPolls ih =>
      obtain ⟨word, mid, hstatus⟩ := hreads (.status .rx) s
      cases hword : bitAt word 17 with
      | false =>
          obtain ⟨value, t, hdata⟩ := hreads .data mid
          refine Or.inl ⟨⟨.nil, word, hword, value⟩, t, ?_, Nat.succ_pos _⟩
          exact .cons hstatus (.cons hdata (.nil t))
      | true =>
          rcases ih mid with ⟨a, t, ha, hless⟩ | ⟨w, t, hw, hpolls⟩
          · refine Or.inl ⟨{ a with wait := a.wait.cons word hword }, t, ?_, Nat.succ_lt_succ hless⟩
            exact .cons hstatus ha
          · exact Or.inr ⟨w.cons word hword, t, .cons hstatus hw, congrArg Nat.succ hpolls⟩

/-- **The bounded read agrees with the blocking one.** On any platform: where a byte arrives
after fewer empty readings than the bound, both take it with the same exchanges, which are
those readings, the one that shows the byte and the one that takes it. Where the first
readings, as many as the bound, show the FIFO empty, the bounded read makes these and no
other access and gives up; and a blocking read that is begun then does what is left of one
begun before. Where the block can be read, it is one or the other. -/
theorem readByteWithin_agrees (p : Platform σ) (maxPolls : Nat) (s : σ) :
    (∀ (a : Arrival) (t : σ), Answered p (a.exchanges u.block) s t → a.wait.polls < maxPolls →
      Completes p (u.readByteWithin maxPolls) s (a.exchanges u.block) (.ok a.byte) t ∧
      Completes p u.readByte s (a.exchanges u.block) a.byte t) ∧
    (∀ (w : Wait) (t : σ), Answered p (w.readings u.block) s t → w.polls = maxPolls →
      Completes p (u.readByteWithin maxPolls) s (w.readings u.block) (.error .timeout) t ∧
      ∀ trace byte left, Completes p u.readByte s trace byte left ↔
        ∃ rest, trace = w.readings u.block ++ rest ∧ Completes p u.readByte t rest byte left) ∧
    ((∀ (r : Fifo.Register) (s : σ), ∃ word t, p (.load u.block r.offset) s = .returned word t) →
      (∃ (a : Arrival) (t : σ), Answered p (a.exchanges u.block) s t ∧ a.wait.polls < maxPolls) ∨
        ∃ (w : Wait) (t : σ), Answered p (w.readings u.block) s t ∧ w.polls = maxPolls) := by
  refine ⟨?_, ?_, ?_⟩
  · intro a t ha hless
    exact ⟨u.completes_readByteWithin_ok a ha hless, u.completes_readByte a ha⟩
  · rintro w t hw rfl
    refine ⟨u.completes_readByteWithin_timeout w hw, ?_⟩
    intro trace byte left
    exact u.completes_readByte_iff w hw
  · intro hreads
    exact exists_arrival_or_wait hreads maxPolls s

/-- Two readings show the FIFO empty; the third one shows a byte. -/
def lateByte : Machine ScriptModel :=
  { device := ⟨[(0x1C, [0x20000, 0x20000, 0, 0x20000]), (0x00, [0x71])]⟩ }

/-- Three polls find the byte. Two do not, and a blocking read gets it after them. -/
theorem readByteWithin_agrees_late :
    let u : Uart := ⟨MemoryMap.full.uart0⟩
    let p := Machine.platform ScriptModel.bus
    (∃ trace left, Completes p (u.readByteWithin 3) lateByte trace (.ok 0x71) left ∧
      Completes p u.readByte lateByte trace 0x71 left ∧ trace.length = 4) ∧
    (∃ trace mid rest left,
      Completes p (u.readByteWithin 2) lateByte trace (.error .timeout) mid ∧ trace.length = 2 ∧
      Completes p u.readByte mid rest 0x71 left ∧ rest.length = 2) ∧
    ((∃ (a : Arrival) (left : Machine ScriptModel),
        Answered p (a.exchanges u.block) lateByte left ∧ a.wait.polls < 1) ∨
      ∃ (w : Wait) (left : Machine ScriptModel),
        Answered p (w.readings u.block) lateByte left ∧ w.polls = 1) := by
  intro u p
  let w : Wait := .cons 0x20000 rfl (.cons 0x20000 rfl .nil)
  let a : Arrival := ⟨w, 0, rfl, 0x71⟩
  obtain ⟨mid, hfirst⟩ : ∃ mid, Answered p (w.readings u.block) lateByte mid :=
    ⟨_, .cons rfl (.cons rfl (.nil _))⟩
  obtain ⟨left, harrives⟩ : ∃ left, Answered p (a.exchanges u.block) lateByte left :=
    ⟨_, .cons rfl (.cons rfl (.cons rfl (.cons rfl (.nil _))))⟩
  obtain ⟨hwithin, hblocking⟩ :=
    (u.readByteWithin_agrees p 3 lateByte).1 a left harrives (Nat.lt_succ_self 2)
  obtain ⟨htimeout, hlater⟩ := (u.readByteWithin_agrees p 2 lateByte).2.1 w mid hfirst rfl
  obtain ⟨rest, htrace, hrest⟩ := (hlater _ _ _).mp hblocking
  refine ⟨⟨_, left, hwithin, hblocking, rfl⟩, ⟨_, mid, rest, left, htimeout, rfl, hrest, ?_⟩, ?_⟩
  · obtain rfl := List.append_cancel_left htrace
    rfl
  · exact (u.readByteWithin_agrees p 1 lateByte).2.2 fun r m => ⟨_, _, rfl⟩

end Uart

end BoardSupport
