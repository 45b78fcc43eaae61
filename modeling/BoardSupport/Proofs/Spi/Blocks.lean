import BoardSupport.Proofs.Program.Refinement
import BoardSupport.Proofs.Spi.Transfers

/-!
# Block writes from start to end

A block write passes through several control words before it puts back the one it found.
The controller keeps every control word that is written, and one step of a program writes
at most one (`SpiModel.exists_controlled_step`). So the words that a run leaves in the trace
are the ones it comes through, in that order and with none left out: at each of its points
some first part of them has been written (`SpiModel.exists_prefix_of_passes`), and each
first part is all that has been written at some point (`SpiModel.exists_passes_of_prefix`).

`Spi.writeBlock_outcome` says all that a block write does to the controller, whatever state
it finds it in.
-/

namespace BoardSupport

open Program

/-! ## Control words one after another -/

namespace SpiModel

variable {d d' d'' : SpiModel} {words more : List UInt32}

/-- The words were written to the control register, one after another, on the way from `d`
to `d'`: they are the new end of its trace, and the last one is in place. -/
def Controlled (words : List UInt32) (d d' : SpiModel) : Prop :=
  d'.controlTrace.toList = d.controlTrace.toList ++ words ∧ d'.control = words.getLastD d.control

namespace Controlled

theorem of_same (hcontrol : d'.control = d.control) (htrace : d'.controlTrace = d.controlTrace) :
    Controlled [] d d' :=
  ⟨by rw [htrace, List.append_nil], hcontrol⟩

theorem putControl (d : SpiModel) (value : UInt32) : Controlled [value] d (d.putControl value) :=
  ⟨Array.toList_push, rfl⟩

theorem trans (h : Controlled words d d') (h' : Controlled more d' d'') :
    Controlled (words ++ more) d d'' := by
  refine ⟨?_, ?_⟩
  · rw [h'.1, h.1, List.append_assoc]
  · rw [h'.2, h.2]
    simp only [List.getLastD_eq_getLast?, List.getLast?_append, Option.getD_or]

/-- The traces tell which words they were. -/
theorem unique (h : Controlled words d d') (h' : Controlled more d d') : words = more :=
  List.append_cancel_left (h.1.symm.trans h'.1)

end Controlled

/-! ### By an access -/

theorem controlled_load (d : SpiModel) (offset : Nat) : Controlled [] d (d.load offset).2 := by
  obtain ⟨rx, polls, heq, -⟩ := d.exists_load_eq offset
  rw [heq]
  exact .of_same rfl rfl

theorem controlled_shift (d : SpiModel) (byte : UInt8) : Controlled [] d (d.shift byte) := by
  unfold shift
  cases d.txEnabled with
  | false => exact .of_same rfl rfl
  | true =>
      cases hon : d.rxEnabled with
      | false => exact .of_same rfl rfl
      | true => exact .of_same rfl rfl

/-- The control word is written directly or through an alias; no other write touches it. -/
theorem exists_controlled_store (d : SpiModel) (offset : Nat) (value : UInt32) :
    ∃ word : Option UInt32, Controlled word.toList d (d.store offset value) := by
  unfold store
  cases Fifo.Register.ofOffset? offset with
  | none => exact ⟨none, .of_same rfl rfl⟩
  | some r =>
      cases r with
      | data => exact ⟨none, d.controlled_shift _⟩
      | control => exact ⟨some value, .putControl d _⟩
      | controlSet => exact ⟨some (d.control ||| value), .putControl d _⟩
      | controlClear => exact ⟨some (d.control &&& ~~~value), .putControl d _⟩
      | status side => exact ⟨none, .of_same rfl rfl⟩
      | statusSet side | statusClear side => cases side <;> exact ⟨none, .of_same rfl rfl⟩

/-! ### By a run -/

section Runs

variable {α : Type} {x : Program α} {m left t : Machine SpiModel} {v : α}
  {written : List UInt32}

theorem exists_controlled_of_platform {r : Request} {reply : r.Reply}
    (h : platform r m = .returned reply t) :
    ∃ word : Option UInt32, Controlled word.toList m.device t.device := by
  cases r with
  | load b offset =>
      cases h
      exact ⟨none, m.device.controlled_load offset⟩
  | store b offset value =>
      cases h
      exact m.device.exists_controlled_store offset value
  | _ =>
      have hdevice : t.device = m.device := Machine.device_of_platform rfl h
      exact ⟨none, .of_same (congrArg control hdevice) (congrArg controlTrace hdevice)⟩

/-- One step writes at most one control word. -/
theorem exists_controlled_step (x : Program α) (m : Machine SpiModel) :
    ∃ word : Option UInt32, Controlled word.toList m.device (step platform x m).2.device := by
  cases x with
  | done v => exact ⟨none, .of_same rfl rfl⟩
  | fault c => exact ⟨none, .of_same rfl rfl⟩
  | loop g turn next => exact ⟨none, .of_same rfl rfl⟩
  | ask r k =>
      rw [step]
      cases hr : platform r m with
      | stopped c t => exact ⟨none, .of_same rfl rfl⟩
      | returned reply t => exact exists_controlled_of_platform hr

theorem exists_controlled_advance (n : Nat) (x : Program α) (m : Machine SpiModel) :
    ∃ written, Controlled written m.device (advance platform n x m).2.device := by
  induction n generalizing x m with
  | zero => exact ⟨[], .of_same rfl rfl⟩
  | succ n ih =>
      obtain ⟨word, hword⟩ := exists_controlled_step x m
      obtain ⟨rest, hrest⟩ := ih (step platform x m).1 (step platform x m).2
      exact ⟨word.toList ++ rest, hword.trans hrest⟩

/-- At every point of a run that returns, the words written so far are the first ones of
those that it writes. -/
theorem exists_prefix_of_passes (hx : Returns platform x m v left)
    (hwords : Controlled words m.device left.device) (ht : Passes platform x m t) :
    ∃ written, written <+: words ∧ Controlled written m.device t.device := by
  obtain ⟨n, rfl⟩ := ht
  obtain ⟨k, hk⟩ := (returns_advance (n := n).mpr hx).exists_advance
  obtain ⟨written, hwritten⟩ := exists_controlled_advance n x m
  obtain ⟨rest, hrest⟩ := exists_controlled_advance k (advance platform n x m).1
    (advance platform n x m).2
  rw [hk] at hrest
  exact ⟨written, ⟨rest, (hwritten.trans hrest).unique hwords⟩, hwritten⟩

/-- No control word is skipped: each first part of those written is at some point all of
them so far. -/
theorem exists_passes_of_prefix {n : Nat}
    (hwords : Controlled words m.device (advance platform n x m).2.device)
    (hwritten : written <+: words) :
    ∃ t, Passes platform x m t ∧ Controlled written m.device t.device := by
  induction n generalizing x m words written with
  | zero =>
      have hnil : words = [] := hwords.unique (.of_same rfl rfl)
      subst hnil
      rw [List.prefix_nil.mp hwritten]
      exact ⟨m, .start, .of_same rfl rfl⟩
  | succ n ih =>
      obtain ⟨word, hword⟩ := exists_controlled_step x m
      obtain ⟨rest, hrest⟩ := exists_controlled_advance n (step platform x m).1
        (step platform x m).2
      obtain rfl : words = word.toList ++ rest := hwords.unique (hword.trans hrest)
      cases word with
      | none =>
          obtain ⟨t, ⟨i, hi⟩, ht⟩ := ih hrest hwritten
          exact ⟨t, ⟨i + 1, hi⟩, hword.trans ht⟩
      | some w =>
          rcases List.prefix_cons_iff.mp hwritten with rfl | ⟨later, rfl, hlater⟩
          · exact ⟨m, .start, .of_same rfl rfl⟩
          · obtain ⟨t, ⟨i, hi⟩, ht⟩ := ih hrest hlater
            exact ⟨t, ⟨i + 1, hi⟩, hword.trans ht⟩

end Runs

/-! ## Block writes -/

/-- The control words of a block transfer, one bit after another: the slave select goes to
software (bit 13), which drives it low and then high (bit 12) and gives it back. The first
word of all comes last. -/
def transferWords (control : UInt32) : List UInt32 :=
  let software := control ||| 0x2000
  let selected := software &&& ~~~0x1000
  let deselected := selected ||| 0x1000
  [software, selected, deselected, deselected &&& ~~~0x2000, control]

theorem transferTrace_eq (control : UInt32) : transferTrace control = transferWords control := by
  rw [transferTrace, ← Spi.closedControl_openControl]
  rfl

end SpiModel

namespace Spi

variable (s : Spi) {m : Machine SpiModel}

/-- **A block write does the same to every controller.** On a master whose stored status
words hold only watermark bits, whatever it is busy with and whatever it has received, a
block write returns with no error. Each byte has left in a frame of its own, in order, with
the slave selected by software; the script of the input line is as it was, nothing received
is left, and both sides are enabled. The control words it comes through are `transferWords`
of the first one, all of them and in that order. -/
theorem writeBlock_outcome (htx : m.device.txStored &&& ~~~0xFF00 = 0)
    (hrx : m.device.rxStored &&& ~~~0xFF00 = 0)
    (hrole : effectiveRole m.device.control = .master) (bytes : List UInt8) :
    Returns SpiModel.platform (s.writeBlock bytes) m (.ok ())
      { m with device := { m.device with
        txEnabled := true
        rxEnabled := true
        busyPolls := 0
        rx := []
        frames := m.device.frames ++ (bytes.map fun byte => ⟨byte, true, true⟩).toArray
        controlTrace :=
          m.device.controlTrace ++ (SpiModel.transferWords m.device.control).toArray } } ∧
    (∀ t, Passes SpiModel.platform (s.writeBlock bytes) m t →
      ∃ written, written <+: SpiModel.transferWords m.device.control ∧
        SpiModel.Controlled written m.device t.device) ∧
    ∀ written, written <+: SpiModel.transferWords m.device.control →
      ∃ t, Passes SpiModel.platform (s.writeBlock bytes) m t ∧
        SpiModel.Controlled written m.device t.device := by
  have hreturns := s.returns_writeBlock ⟨htx, hrx⟩ hrole bytes
  have hwords : SpiModel.Controlled (SpiModel.transferWords m.device.control) m.device
      (m.device.transferred bytes 0) := by
    refine ⟨?_, rfl⟩
    rw [SpiModel.transferred, SpiModel.transferTrace_eq]
    exact Array.toList_append
  refine ⟨?_, fun t ht => SpiModel.exists_prefix_of_passes hreturns hwords ht, ?_⟩
  · rw [← SpiModel.transferTrace_eq]
    exact hreturns
  · intro written hwritten
    obtain ⟨n, hn⟩ := hreturns.exists_advance
    refine SpiModel.exists_passes_of_prefix (n := n) ?_ hwritten
    rw [hn]
    exact hwords

/-- A master that software has left selected, busy for two readings, with both sides off and
a byte received. -/
def selectedMaster : Machine SpiModel :=
  { device := { control := 0x1012000, rxEnabled := false, txStored := 0x400, busyPolls := 2,
                rx := [7], miso := [0xAB] } }

/-- Two bytes leave it; the select is high when three control words have been written. -/
theorem writeBlock_outcome_selected :
    ∃ left, Returns SpiModel.platform (Spi.writeBlock ⟨MemoryMap.full.spi0⟩ [1, 2]) selectedMaster
        (.ok ()) left ∧
      left.device = { selectedMaster.device with
        txEnabled := true
        rxEnabled := true
        busyPolls := 0
        rx := []
        frames := #[⟨1, true, true⟩, ⟨2, true, true⟩]
        controlTrace := #[0x1012000, 0x1012000, 0x1013000, 0x1011000, 0x1012000] } ∧
      (∀ t, Passes SpiModel.platform (Spi.writeBlock ⟨MemoryMap.full.spi0⟩ [1, 2]) selectedMaster
          t → t.device.controlTrace.size ≤ 5) ∧
      ∃ t, Passes SpiModel.platform (Spi.writeBlock ⟨MemoryMap.full.spi0⟩ [1, 2]) selectedMaster
          t ∧ t.device.control = 0x1013000 := by
  obtain ⟨hreturns, hprefix, hpasses⟩ := writeBlock_outcome (m := selectedMaster)
    ⟨MemoryMap.full.spi0⟩ (by decide) (by decide) (by decide) [1, 2]
  refine ⟨_, hreturns, by decide, fun t ht => ?_, ?_⟩
  · obtain ⟨written, hwritten, htrace, -⟩ := hprefix t ht
    rw [← Array.length_toList, htrace]
    exact hwritten.length_le
  · obtain ⟨t, ht, -, hcontrol⟩ := hpasses [0x1012000, 0x1012000, 0x1013000] (by decide)
    exact ⟨t, ht, hcontrol⟩

end Spi

end BoardSupport
