import BoardSupport.Proofs.Control.Updates
import BoardSupport.Proofs.Program.Interruption
import BoardSupport.Proofs.Spi.Transfers

/-!
# Block transfers against a trap handler

A block transfer reads the control word first and writes the whole of it back last, as
master and as slave alike (`RestoresControl`). So it is not like the other operations of
the driver, which change a field through the aliases and leave the rest of the word
alone (`fieldUpdates_independent`): what a trap handler changes in the control word
while the transfer is under way is gone at the end, whichever field it was and however
long the transfer still waits, drains or sends. A change before the first access or
after the last one stays (`blockTransfer_keeps_update_iff`).
-/

namespace BoardSupport.Spi

open Program

variable {α β : Type} (s : Spi)

/-! ## The first and the last request -/

/-- The program reads the control word, and whatever happens then, it ends by writing
that word back. -/
def RestoresControl (x : Program α) : Prop :=
  ∃ rest : UInt32 → Program α, x = .ask (.load s.block Fifo.Register.control.offset) rest ∧
    ∀ snapshot, EndsWith (.store s.block Fifo.Register.control.offset snapshot) (rest snapshot)

variable {s}

theorem RestoresControl.bind {x : Program α} (h : s.RestoresControl x) {f : α → Program β}
    (hf : ∀ v, ∃ w, f v = .done w) : s.RestoresControl (x.bind f) := by
  obtain ⟨rest, rfl, hrest⟩ := h
  exact ⟨fun snapshot => (rest snapshot).bind f, rfl, fun snapshot => (hrest snapshot).bind hf⟩

variable (s)

theorem restoresControl_asMaster (warning : String) (body : Program α) :
    s.RestoresControl (s.asMaster warning body) := by
  have hwrite : ∀ (snapshot : UInt32) (result : Except DriverError α),
      EndsWith (.store s.block Fifo.Register.control.offset snapshot)
        ((s.writeWord .control snapshot).bind fun _ => .done result) :=
    fun _ result => .last _ fun _ => ⟨result, rfl⟩
  refine ⟨_, rfl, fun snapshot => EndsWith.after s.isMaster fun isMaster => ?_⟩
  cases isMaster with
  | true => exact EndsWith.after body fun result => hwrite snapshot (.ok result)
  | false => exact EndsWith.after _ fun _ => hwrite snapshot (.error .unsupported)

/-- The operations of the driver that write the control word itself. -/
def Command.isBlockTransfer : Command → Bool
  | .writeBlock _ | .readBlock _ => true
  | _ => false

theorem restoresControl_perform {c : Command} (hc : c.isBlockTransfer = true) :
    s.RestoresControl (s.perform c) := by
  cases c with
  | writeBlock bytes =>
      exact (s.restoresControl_asMaster _ _).bind fun result => ⟨.sent result, rfl⟩
  | readBlock buffer =>
      have hread : s.RestoresControl (s.readBlock buffer) := by
        refine (s.restoresControl_asMaster _ _).bind fun result => ?_
        cases result with
        | ok bytes => exact ⟨(.ok (), bytes), rfl⟩
        | error e => exact ⟨(.error e, buffer), rfl⟩
      exact hread.bind fun result => ⟨.received result.1 result.2, rfl⟩
  | _ => cases hc

/-! ## Runs -/

variable {s} {m u m' : Machine SpiModel} {x : Program α} {v : α}

theorem control_of_store {t u : Machine SpiModel} {b : Block} {value : UInt32} {w : Unit}
    (h : SpiModel.platform (.store b Fifo.Register.control.offset value) u = .returned w t) :
    t.device.control = value := by
  cases h
  rfl

namespace RestoresControl

/-- Run whole, the program leaves the control word as it was. -/
theorem control_of_returns (hx : s.RestoresControl x)
    (h : Returns SpiModel.platform x m v m') : m'.device.control = m.device.control := by
  obtain ⟨rest, rfl, hrest⟩ := hx
  obtain ⟨snapshot, t, hload, hreturns⟩ := returns_ask.mp h
  cases hload
  obtain ⟨u, w, hstore⟩ := (hrest m.device.control).exists_last hreturns
  exact control_of_store hstore

/-- **A trap handler's changes of the control word do not last.** Interrupted after its
first access and before its last one, the program leaves the control word as it was at
the start, whatever the handler did. -/
theorem control_of_interrupted (hx : s.RestoresControl x) {handler : Program β} {n : Nat}
    (h : Interrupted SpiModel.platform x handler n m u v m') (hn : 0 < n)
    (hend : ¬ (advance SpiModel.platform n x m).1.Finished) :
    m'.device.control = m.device.control := by
  obtain ⟨rest, rfl, hrest⟩ := hx
  obtain ⟨k, rfl⟩ : ∃ k, n = k + 1 := ⟨n - 1, by omega⟩
  -- The first step reads the control word; the interruption is in what is left.
  have hrest' : Interrupted SpiModel.platform (rest m.device.control) handler k m u v m' :=
    ⟨h.handled, h.resumed⟩
  obtain ⟨t, w, hstore⟩ := hrest'.exists_last (hrest m.device.control) hend
  exact control_of_store hstore

end RestoresControl

/-- **A block transfer undoes what a trap handler changes meanwhile.** Let a trap handler
change the control word through the aliases, run whole between any two accesses of a
block transfer or around it. A field then holds in the end what the handler left there
if and only if the handler ran before the first access, or after the last one, or left
what was there when the transfer began. -/
theorem blockTransfer_keeps_update_iff (s : Spi) {c : Command} (hc : c.isBlockTransfer = true)
    (update : Update) (f : Field) {n : Nat} {m u m' : Machine SpiModel} {answer : Answer}
    (h : Interrupted SpiModel.platform (s.perform c) (s.update update) n m u answer m') :
    f.get m'.device.control = f.get u.device.control ↔
      n = 0 ∨ (advance SpiModel.platform n (s.perform c) m).1.Finished ∨
        f.get m.device.control = f.get u.device.control := by
  have hx := s.restoresControl_perform hc
  by_cases hn : n = 0
  · subst hn
    rw [hx.control_of_returns h.resumed]
    simp
  by_cases hend : (advance SpiModel.platform n (s.perform c) m).1.Finished
  · rw [h.eq_of_finished hend]
    simp [hend]
  · rw [hx.control_of_interrupted h (by omega) hend]
    simp [hn, hend]

/-- A clock mode chosen by a trap handler between the two readings of the control word
that a refused block read makes as a slave. -/
theorem blockTransfer_keeps_update_iff_slave :
    let s : Spi := ⟨MemoryMap.full.spi0⟩
    let m : Machine SpiModel := { device := .slave }
    let refused : Answer := .received (.error .unsupported) [0x55]
    ∃ u m', Interrupted SpiModel.platform (s.perform (.readBlock [0x55]))
        (s.update (.set (.mode .mode3))) 1 m u refused m' ∧
      (modeField.get m'.device.control = modeField.get u.device.control ↔
        1 = 0 ∨ (advance SpiModel.platform 1 (s.perform (.readBlock [0x55])) m).1.Finished ∨
          modeField.get m.device.control = modeField.get u.device.control) := by
  have hrun : ∃ u m', Interrupted SpiModel.platform
      (perform ⟨MemoryMap.full.spi0⟩ (.readBlock [0x55]))
      (update ⟨MemoryMap.full.spi0⟩ (.set (.mode .mode3))) 1 { device := .slave } u
      (.received (.error .unsupported) [0x55]) m' := ⟨_, _, ⟨(), 1, rfl⟩, 1, rfl⟩
  intro s m refused
  obtain ⟨u, m', h⟩ := hrun
  exact ⟨u, m', h, blockTransfer_keeps_update_iff s rfl (.set (.mode .mode3)) modeField h⟩

/-- What a transaction itself changes or depends on: slave select and role. -/
def transactionFields : List Field :=
  [selectLevelField, softwareSelectField, masterField, resetRoleField, configFixedField]

/-- A trap handler's change of another field is lost: the clock mode, chosen while a
master sends a byte, is back to what it was when the block write returns. -/
theorem blockTransfer_loses_update :
    ¬ ∀ (s : Spi) (c : Command), c.isBlockTransfer = true →
      ∀ (update : Update), ∀ f ∈ update.fields, (∀ g ∈ transactionFields, f.Apart g) →
        ∀ (n : Nat) (m u m' : Machine SpiModel) (answer : Answer),
          Interrupted SpiModel.platform (s.perform c) (s.update update) n m u answer m' →
            f.get m'.device.control = f.get u.device.control := by
  have hrun : ∃ u m', Interrupted SpiModel.platform
      (perform ⟨MemoryMap.full.spi0⟩ (.writeBlock [0x9F]))
      (update ⟨MemoryMap.full.spi0⟩ (.set (.mode .mode3))) 12 { device := .master } u
      (.sent (.ok ())) m' ∧
      modeField.get u.device.control = 3 ∧ modeField.get m'.device.control = 0 :=
    ⟨_, _, ⟨⟨(), 1, rfl⟩, 2, rfl⟩, rfl, rfl⟩
  intro hkeeps
  obtain ⟨u, m', h, hchosen, hfinal⟩ := hrun
  have hsame := hkeeps ⟨MemoryMap.full.spi0⟩ (.writeBlock [0x9F]) rfl (.set (.mode .mode3))
    modeField (List.mem_singleton_self _) (by decide) 12 { device := .master } u m' _ h
  rw [hchosen, hfinal] at hsame
  exact absurd hsame (by decide)

end BoardSupport.Spi
