import BoardSupport.Csr.Command
import BoardSupport.Device.Storage
import BoardSupport.Proofs.Csr.Interrupts
import BoardSupport.Proofs.Trap.Decoding
import Mathlib.Logic.Basic

/-!
# What the interrupt helpers do to single bits

Each helper sets or clears bits of `mie`, `mip` or `mstatus` and leaves all others
(`Command.puts`); an update of a read-only register is refused and leaves everything. After
any calls of these a bit is what the last call that put it made of it, and what it was if
none did (`lastPut`), in all registers (`helpers_put_bits`).

A step is `Command.exists_returns_perform`; runs follow by induction on the calls.
-/

namespace BoardSupport

open Program

/-! ## The bit of a line -/

namespace Irq

theorem toNat_bit_lt (line : Irq) : line.bit.toNat < 32 := by
  cases line with
  | machineSoftware | machineTimer | machineExternal => decide
  | xirq channel =>
      rw [toNat_bit_xirq]
      omega

/-- The mask of a line is its bit and no other. -/
theorem bitAt_mask (line : Irq) (i : Nat) : bitAt line.mask i = decide (i = line.bit.toNat) := by
  have hone : (1 : UInt32) = (Field.bit 0).mask := by decide
  have hlt := line.toNat_bit_lt
  rw [mask, ← UInt32.ofNat_toNat (x := line.bit), bitAt_shiftLeft hlt, hone, Field.bitAt_bit_mask,
    UInt32.ofNat_toNat]
  grind

/-- A channel past the sixteenth has the line of another. -/
theorem mask_xirq_mod (n : UInt8) : (xirq n).mask = (xirq (n % 16)).mask := by
  have hbit : (xirq n).bit = (xirq (n % 16)).bit := by
    have hmod : (n % 16).toNat = n.toNat % 16 := UInt8.toNat_mod n 16
    apply UInt32.toNat_inj.mp
    rw [toNat_bit_xirq, toNat_bit_xirq, hmod, Nat.mod_mod]
  rw [mask, mask, hbit]

end Irq

namespace CsrFile

variable (s : CsrFile) (c : Csr) {mask : UInt32} {b : Nat}

/-- A register is written with a word that puts some bits and keeps the others: of all
registers, those bits of this one are put. -/
theorem bitAt_get_set {w : UInt32} (f : Nat → Option Bool)
    (h : ∀ i, bitAt w i = (f i).getD (bitAt (s.get c) i)) (d : Csr) (i : Nat) :
    bitAt ((s.set c w).get d) i = (if d = c then f i else none).getD (bitAt (s.get d) i) := by
  rw [get_set]
  by_cases hd : c = d
  · subst hd
    rw [if_pos rfl, if_pos rfl, h]
  · rw [if_neg hd, if_neg (Ne.symm hd), Option.getD_none]

/-- Setting a single bit. -/
theorem bitAt_get_setBit (hmask : ∀ i, bitAt mask i = decide (i = b)) (d : Csr) (i : Nat) :
    bitAt ((s.set c (s.get c ||| mask)).get d) i
      = (if d = c ∧ i = b then some true else none).getD (bitAt (s.get d) i) := by
  rw [ite_and]
  refine bitAt_get_set s c (fun j => if j = b then some true else none) (fun j => ?_) d i
  rw [bitAt_or, hmask]
  by_cases hj : j = b
  · simp [hj]
  · simp [hj]

/-- Clearing a single bit. -/
theorem bitAt_get_clearBit (hmask : ∀ i, bitAt mask i = decide (i = b)) (d : Csr) (i : Nat) :
    bitAt ((s.set c (s.get c &&& ~~~mask)).get d) i
      = (if d = c ∧ i = b then some false else none).getD (bitAt (s.get d) i) := by
  rw [ite_and]
  refine bitAt_get_set s c (fun j => if j = b then some false else none) (fun j => ?_) d i
  rw [bitAt_and_not, hmask]
  by_cases hj : j = b
  · simp [hj]
  · simp [hj]

/-- Clearing a whole register. -/
theorem bitAt_get_clear (d : Csr) (i : Nat) :
    bitAt ((s.set c 0).get d) i
      = (if d = c then some false else none).getD (bitAt (s.get d) i) :=
  bitAt_get_set s c (fun _ => some false) bitAt_zero d i

end CsrFile

namespace Csr

/-! ## Single calls -/

namespace Command

/-- A helper for interrupts, or an update of a register that software cannot write. -/
def Helps : Command → Prop
  | .write c _ | .setBits c _ | .clearBits c _ => c.isReadOnly = true
  | .read _ | .capture | .criticalSection _ => False
  | _ => True

/-- What the call makes of bit `i` of a register, if it puts that bit at all. -/
def puts (command : Command) (c : Csr) (i : Nat) : Option Bool :=
  match command with
  | .enableLine line => if c = .mie ∧ i = line.bit.toNat then some true else none
  | .disableLine line => if c = .mie ∧ i = line.bit.toNat then some false else none
  | .clearPending line => if c = .mip ∧ i = line.bit.toNat then some false else none
  | .clearAllPending => if c = .mip then some false else none
  | .enableInterrupts => if c = .mstatus ∧ i = 3 then some true else none
  | .disableInterrupts => if c = .mstatus ∧ i = 3 then some false else none
  | .disableAll => if c = .mie ∨ c = .mstatus ∧ i = 3 then some false else none
  | _ => none

/-- What the call answers: that it was done, whether interrupts were enabled before, or that
the register cannot be written. -/
def reply (command : Command) (enabled : Bool) : Answer :=
  match command with
  | .disableInterrupts => .wasEnabled (.ok enabled)
  | .write _ _ | .setBits _ _ | .clearBits _ _ => .result (.error .readOnlyCsr)
  | _ => .result (.ok ())

end Command

section Calls

variable {δ : Type} {bus : Bus δ} {m : Machine δ}

theorem bitAt_interruptEnable (i : Nat) : bitAt interruptEnable i = decide (i = 3) := by
  rw [interruptEnable_eq, Field.bitAt_bit_mask]

/-- An update of a read-only register is refused, and changes nothing. -/
theorem returns_refused (h : m.Unrefused) {c : Csr} (hc : c.isReadOnly = true) (op : CsrUpdate) :
    Returns (Machine.platform bus) (request (.updateCsr c op)) m (.error .readOnlyCsr) m := by
  have hrefusal : m.csrs.refusal c = some .readOnlyCsr := by
    unfold Machine.Unrefused at h
    simp [CsrUnit.refusal, h, hc]
  exact returns_request (Machine.platform_updateCsr_refused hrefusal op)

/-- A call answers as it should, and puts its bits and no others. -/
theorem Command.exists_returns_perform (bus : Bus δ) (h : m.Unrefused) {command : Command}
    (hc : command.Helps) :
    ∃ file, Returns (Machine.platform bus) command.perform m
        (command.reply m.interruptsEnabled) { m with csrs := { m.csrs with file } } ∧
      ∀ c i, bitAt (file.get c) i = (command.puts c i).getD (bitAt (m.csrs.file.get c) i) := by
  cases command with
  | read c | capture | criticalSection body => exact hc.elim
  | write c v | setBits c v | clearBits c v =>
      exact ⟨_, (returns_refused h hc _).map Answer.result, fun c i => rfl⟩
  | enableInterrupts =>
      exact ⟨_, (Machine.returns_update h rfl _).map Answer.result,
        CsrFile.bitAt_get_setBit _ _ bitAt_interruptEnable⟩
  | disableInterrupts =>
      exact ⟨_, (Interrupts.returns_mask (h.refusal rfl)).map Answer.wasEnabled,
        CsrFile.bitAt_get_clearBit _ _ bitAt_interruptEnable⟩
  | enableLine line =>
      exact ⟨_, (Machine.returns_update h rfl _).map Answer.result,
        CsrFile.bitAt_get_setBit _ _ line.bitAt_mask⟩
  | disableLine line =>
      exact ⟨_, (Machine.returns_update h rfl _).map Answer.result,
        CsrFile.bitAt_get_clearBit _ _ line.bitAt_mask⟩
  | clearPending line =>
      exact ⟨_, (Interrupts.returns_clearPending h line).map Answer.result,
        CsrFile.bitAt_get_clearBit _ _ line.bitAt_mask⟩
  | clearAllPending =>
      exact ⟨_, (Interrupts.returns_clearAllPending h).map Answer.result,
        CsrFile.bitAt_get_clear _ _⟩
  | disableAll =>
      refine ⟨_, (Interrupts.returns_disableAll h).map Answer.result, fun c i => ?_⟩
      -- The global enable is cleared in the file where no line is enabled any more.
      have hmie : bitAt ((m.setCsr .mie 0).csrs.file.get c) i =
          (if c = .mie then some false else none).getD (bitAt (m.csrs.file.get c) i) :=
        CsrFile.bitAt_get_clear _ _ c i
      refine (CsrFile.bitAt_get_clearBit _ _ bitAt_interruptEnable c i).trans ?_
      rw [hmie, puts]
      grind

/-! ## Runs of calls -/

/-- What the last call that put bit `i` of a register made of it. -/
def lastPut (commands : List Command) (c : Csr) (i : Nat) (before : Bool) : Bool :=
  (commands.filterMap fun command => command.puts c i).getLastD before

theorem lastPut_cons (command : Command) (rest : List Command) (c : Csr) (i : Nat)
    (before : Bool) :
    lastPut (command :: rest) c i before = lastPut rest c i ((command.puts c i).getD before) := by
  rw [lastPut, lastPut, List.filterMap_cons]
  cases command.puts c i with
  | none => rfl
  | some value => rw [List.getLastD_cons, Option.getD_some]

/-- The answers to calls that begin with interrupts enabled or not: each finds what the calls
before it left of the global enable. -/
def replies (commands : List Command) (enabled : Bool) : List Answer :=
  commands.mapIdx fun k command =>
    command.reply (lastPut (commands.take k) .mstatus 3 enabled)

theorem replies_cons (command : Command) (rest : List Command) (enabled : Bool) :
    replies (command :: rest) enabled
      = command.reply enabled :: replies rest ((command.puts .mstatus 3).getD enabled) := by
  simp only [replies, List.mapIdx_cons, List.take_zero, List.take_succ_cons, lastPut_cons]
  rfl

theorem exists_returns_performAll (bus : Bus δ) (h : m.Unrefused) {commands : List Command}
    (hc : ∀ command ∈ commands, command.Helps) :
    ∃ file, Returns (Machine.platform bus) (Command.performAll commands) m
        (replies commands m.interruptsEnabled) { m with csrs := { m.csrs with file } } ∧
      ∀ c i, bitAt (file.get c) i = lastPut commands c i (bitAt (m.csrs.file.get c) i) := by
  induction commands generalizing m with
  | nil => exact ⟨m.csrs.file, returns_done.mpr ⟨rfl, rfl⟩, fun c i => rfl⟩
  | cons command rest ih =>
      obtain ⟨file, hfirst, hbits⟩ := Command.exists_returns_perform bus h
        (hc command List.mem_cons_self)
      let m' : Machine δ := { m with csrs := { m.csrs with file } }
      have henabled : m'.interruptsEnabled
          = (command.puts .mstatus 3).getD m.interruptsEnabled := by
        rw [m'.interruptsEnabled_eq_bitAt, m.interruptsEnabled_eq_bitAt]
        exact hbits .mstatus 3
      obtain ⟨file', hrest, hbits'⟩ := ih (m := m') h fun c hmem =>
        hc c (List.mem_cons_of_mem command hmem)
      refine ⟨file', ?_, fun c i => ?_⟩
      · rw [replies_cons, ← henabled]
        exact hfirst.bind (hrest.map _)
      · rw [hbits' c i, lastPut_cons]
        exact congrArg _ (hbits c i)

/-- Calls of the helpers, and updates of read-only registers, all return: a helper succeeds,
masking tells whether interrupts were enabled, and a read-only register is refused. Every bit
of every register is then what the last call that put it made of it, or what it was. The
sixteen channels are numbered modulo sixteen. -/
theorem helpers_put_bits (bus : Bus δ) (h : m.Unrefused) {commands : List Command}
    (hc : ∀ command ∈ commands, command.Helps) :
    (∃ file, Returns (Machine.platform bus) (Command.performAll commands) m
        (replies commands (bitAt (m.csrs.file.get .mstatus) 3))
        { m with csrs := { m.csrs with file } } ∧
      ∀ c i, bitAt (file.get c) i = lastPut commands c i (bitAt (m.csrs.file.get c) i)) ∧
    ∀ n : UInt8,
      Interrupts.enableLine (.xirq n) = Interrupts.enableLine (.xirq (n % 16)) ∧
      Interrupts.disableLine (.xirq n) = Interrupts.disableLine (.xirq (n % 16)) ∧
      Interrupts.clearPending (.xirq n) = Interrupts.clearPending (.xirq (n % 16)) := by
  refine ⟨?_, fun n => ?_⟩
  · rw [← m.interruptsEnabled_eq_bitAt]
    exact exists_returns_performAll bus h hc
  · have hmask := Irq.mask_xirq_mod n
    exact ⟨congrArg Csr.mie.setBits hmask, congrArg Csr.mie.clearBits hmask,
      congrArg Csr.mip.clearBits hmask⟩

/-- A hart with two lines enabled, interrupts on, and a channel pending. -/
def pendingHart : Machine RegisterModel where
  device := {}
  csrs := ⟨((CsrFile.zero.set .mstatus 0x88).set .mie 0x808).set .mip 0x10080, []⟩

/-- Only the lines enabled after all were disabled stay enabled, among them channel 21 as 5. -/
theorem helpers_put_bits_reenabled :
    ∃ file, Returns (Machine.platform RegisterModel.bus)
        (Command.performAll [.enableLine .machineTimer, .disableInterrupts, .disableAll,
          .write .mhartid 7, .enableLine (.xirq 21), .disableInterrupts, .clearPending (.xirq 0)])
        pendingHart
        [.result (.ok ()), .wasEnabled (.ok true), .result (.ok ()),
          .result (.error .readOnlyCsr), .result (.ok ()), .wasEnabled (.ok false),
          .result (.ok ())]
        { pendingHart with csrs := { pendingHart.csrs with file } } ∧
      bitAt (file.get .mie) 21 = true ∧ bitAt (file.get .mie) 7 = false ∧
      bitAt (file.get .mip) 16 = false ∧ bitAt (file.get .mip) 7 = true ∧
      bitAt (file.get .mstatus) 3 = false ∧ bitAt (file.get .mstatus) 7 = true ∧
      bitAt (file.get .mhartid) 0 = false := by
  have hhelps : ∀ command ∈ ([.enableLine .machineTimer, .disableInterrupts, .disableAll,
      .write .mhartid 7, .enableLine (.xirq 21), .disableInterrupts,
      .clearPending (.xirq 0)] : List Command), command.Helps := by
    simp [Command.Helps, isReadOnly]
  obtain ⟨⟨file, hreturns, hbits⟩, -⟩ := helpers_put_bits (m := pendingHart) RegisterModel.bus rfl
    hhelps
  refine ⟨file, hreturns, ?_⟩
  simp only [hbits]
  decide

end Calls

end Csr

end BoardSupport
