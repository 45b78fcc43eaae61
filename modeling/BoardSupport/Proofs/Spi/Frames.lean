import BoardSupport.Proofs.Spi.Transfers
import BoardSupport.Spi.Command

/-!
# Every byte leaves inside a transaction

The frames of a run of block transfers and transactions are the bytes that the
operations ask for, in order, each with the slave selected by software.

Inside a transaction the block keeps the invariant `SpiModel.Selected`, also across a
block transfer, whose own end gives the select back: the control word that the
transfer restores is the one of the open transaction. Between operations the block
keeps `SpiModel.Operable`. `exists_returns_operation` is the step over one operation
and `operations_send_requested` the run.
-/

namespace BoardSupport

open Program

/-! ## Operations and the bytes they ask for -/

namespace Spi

/-- A transfer that may stand inside a transaction. -/
def Command.isTransfer : Command → Bool
  | .writeByte _ => true
  | .transferByte _ => true
  | .writeBlock _ => true
  | .readBlock _ => true
  | _ => false

/-- A block transfer, or a transaction of transfers. -/
def Command.isOperation : Command → Bool
  | .writeBlock _ => true
  | .readBlock _ => true
  | .withTransaction body => body.all Command.isTransfer
  | _ => false

/-- The bytes that a transfer sends; a read sends a zero for each byte it takes. -/
def Command.bytes : Command → List UInt8
  | .writeByte byte => [byte]
  | .transferByte byte => [byte]
  | .writeBlock bytes => bytes
  | .readBlock buffer => List.replicate buffer.length 0
  | _ => []

def Command.requested : Command → List UInt8
  | .withTransaction body => body.flatMap Command.bytes
  | c => c.bytes

/-- The control word after an operation: a transaction leaves the slave deselected and
the select with the hardware, a block transfer leaves the word as it was. -/
def Command.settled : Command → UInt32 → UInt32
  | .withTransaction _, control => closedControl control
  | _, control => control

end Spi

/-! ## Invariants -/

namespace SpiModel

/-- A receiving master whose stored status words are quiet. -/
structure Operable (d : SpiModel) : Prop where
  quiet : d.Quiet
  role : Spi.effectiveRole d.control = .master
  receiving : d.rxEnabled = true

/-- Inside a transaction: what is sent leaves, with the slave selected by software. -/
structure Selected (d : SpiModel) : Prop extends d.Operable where
  sending : d.txEnabled = true
  frames_selected : d.frame = fun byte => ⟨byte, true, true⟩

/-- The frames grew by those of `bytes`. -/
def Sends (bytes : List UInt8) (d d' : SpiModel) : Prop :=
  d'.frames = d.frames ++ selectedFrames bytes

theorem Sends.trans {as bs : List UInt8} {d d' d'' : SpiModel} (h : Sends as d d')
    (h' : Sends bs d' d'') : Sends (as ++ bs) d d'' := by
  unfold Sends selectedFrames at *
  rw [h', h]
  simp

variable {d : SpiModel}

theorem Selected.sends {d' : SpiModel} (h : d.Selected) {byte : UInt8}
    (hframes : d'.frames = d.frames.push (d.frame byte)) : Sends [byte] d d' := by
  rw [h.frames_selected] at hframes
  exact hframes

theorem Selected.of_control {d' : SpiModel} (h : d.Selected) (hd : d'.Operable)
    (hc : d'.control = d.control) (htx : d'.txEnabled = true) : d'.Selected := by
  refine { hd with sending := htx, frames_selected := ?_ }
  rw [← h.frames_selected]
  unfold frame selected softwareSelect
  rw [hc]

theorem Operable.begun (h : d.Operable) : d.begun.Selected where
  quiet := ⟨h.quiet.tx, h.quiet.rx⟩
  role := (Spi.effectiveRole_openControl d.control).trans h.role
  receiving := h.receiving
  sending := rfl
  frames_selected := d.frame_begun

theorem Operable.transferred (h : d.Operable) (bytes : List UInt8) (taken : Nat) :
    (d.transferred bytes taken).Operable :=
  ⟨⟨h.quiet.tx, h.quiet.rx⟩, h.role, rfl⟩

theorem Operable.ended (h : d.Operable) : d.ended.Operable where
  quiet := ⟨h.quiet.tx, h.quiet.rx⟩
  role := (Spi.effectiveRole_closedControl d.control).trans h.role
  receiving := h.receiving

end SpiModel

namespace Spi

variable (s : Spi) {m : Machine SpiModel}

/-- What each command of a list keeps, the list keeps, and it sends what they send. -/
theorem exists_returns_performAll {I : SpiModel → Prop} {ok : Command → Prop}
    {bytes : Command → List UInt8}
    (hstep : ∀ (m : Machine SpiModel) c, I m.device → ok c →
      ∃ a m', Returns SpiModel.platform (s.perform c) m a m' ∧ I m'.device ∧
        SpiModel.Sends (bytes c) m.device m'.device)
    (h : I m.device) {commands : List Command} (hc : ∀ c ∈ commands, ok c) :
    ∃ answers m', Returns SpiModel.platform (s.performAll commands) m answers m' ∧
      I m'.device ∧ SpiModel.Sends (commands.flatMap bytes) m.device m'.device := by
  induction commands generalizing m with
  | nil =>
      refine ⟨[], m, returns_done.mpr ⟨rfl, rfl⟩, h, ?_⟩
      simp [SpiModel.Sends, SpiModel.selectedFrames]
  | cons c rest ih =>
      obtain ⟨a, m₁, hret, hinv, hsends⟩ := hstep m c h (hc c List.mem_cons_self)
      obtain ⟨answers, m₂, hrest, hinv', hsends'⟩ :=
        ih hinv fun d hd => hc d (List.mem_cons_of_mem c hd)
      refine ⟨a :: answers, m₂, hret.bind (hrest.bind (returns_done.mpr ⟨rfl, rfl⟩)), hinv', ?_⟩
      rw [List.flatMap_cons]
      exact hsends.trans hsends'

/-! ## Inside a transaction -/

theorem exists_returns_writeByte (h : m.device.Selected) (byte : UInt8) :
    ∃ m', Returns SpiModel.platform (s.writeByte byte) m () m' ∧ m'.device.Selected ∧
      m'.device.control = m.device.control ∧ SpiModel.Sends [byte] m.device m'.device := by
  have hwrite := s.returns_writeByte h.quiet byte
  rw [SpiModel.shift_of_rx_on (d := m.device.polled) h.sending h.receiving] at hwrite
  refine ⟨_, hwrite, ?_, rfl, h.sends rfl⟩
  exact h.of_control ⟨⟨h.quiet.tx, h.quiet.rx⟩, h.role, h.receiving⟩ rfl h.sending

theorem exists_returns_transferByte (h : m.device.Selected) (byte : UInt8) :
    ∃ reply m', Returns SpiModel.platform (s.transferByte byte) m reply m' ∧
      m'.device.Selected ∧ m'.device.control = m.device.control ∧
      SpiModel.Sends [byte] m.device m'.device := by
  obtain ⟨reply, rest, hrx⟩ := List.exists_cons_of_ne_nil
    (List.concat_ne_nil (m.device.miso.headD byte) m.device.rx)
  have htransfer := s.returns_transferByte h.quiet h.sending h.receiving byte hrx
  refine ⟨reply, _, htransfer, ?_, rfl, h.sends rfl⟩
  exact h.of_control ⟨⟨h.quiet.tx, h.quiet.rx⟩, h.role, h.receiving⟩ rfl h.sending

/-- A transfer inside a transaction sends its bytes and keeps the transaction open. -/
theorem exists_returns_transfer (h : m.device.Selected) {c : Command} (hc : c.isTransfer = true) :
    ∃ a m', Returns SpiModel.platform (s.perform c) m a m' ∧ m'.device.Selected ∧
      m'.device.control = m.device.control ∧ SpiModel.Sends c.bytes m.device m'.device := by
  cases c with
  | writeByte byte =>
      obtain ⟨m', hret, hinv, hcontrol, hsends⟩ := s.exists_returns_writeByte h byte
      exact ⟨.done, m', hret.bind (returns_done.mpr ⟨rfl, rfl⟩), hinv, hcontrol, hsends⟩
  | transferByte byte =>
      obtain ⟨reply, m', hret, hinv, hcontrol, hsends⟩ := s.exists_returns_transferByte h byte
      exact ⟨.byte reply, m', hret.bind (returns_done.mpr ⟨rfl, rfl⟩), hinv, hcontrol, hsends⟩
  | writeBlock bytes =>
      have hret := s.returns_writeBlock h.quiet h.role bytes
      refine ⟨.sent (.ok ()), _, hret.bind (returns_done.mpr ⟨rfl, rfl⟩), ?_, rfl, rfl⟩
      exact h.of_control (h.toOperable.transferred bytes 0) rfl rfl
  | readBlock buffer =>
      have hret := s.returns_readBlock h.quiet h.role buffer
      refine ⟨.received (.ok ()) _, _, hret.bind (returns_done.mpr ⟨rfl, rfl⟩), ?_, rfl, rfl⟩
      exact h.of_control (h.toOperable.transferred _ _) rfl rfl
  | _ => cases hc

theorem exists_returns_body (h : m.device.Selected) {body : List Command}
    (hbody : ∀ c ∈ body, c.isTransfer = true) :
    ∃ answers m', Returns SpiModel.platform (s.performAll body) m answers m' ∧
      (m'.device.Selected ∧ m'.device.control = m.device.control) ∧
      SpiModel.Sends (body.flatMap Command.bytes) m.device m'.device := by
  refine s.exists_returns_performAll (I := fun d => d.Selected ∧ d.control = m.device.control)
    (fun m₁ c hinv hc => ?_) ⟨h, rfl⟩ hbody
  obtain ⟨a, m₂, hret, hinv', hcontrol, hsends⟩ := s.exists_returns_transfer hinv.1 hc
  exact ⟨a, m₂, hret, ⟨hinv', hcontrol.trans hinv.2⟩, hsends⟩

/-! ## Between operations -/

/-- An operation sends what it asks for and leaves the control word as it should. -/
theorem exists_returns_operation (h : m.device.Operable) {c : Command}
    (hc : c.isOperation = true) :
    ∃ a m', Returns SpiModel.platform (s.perform c) m a m' ∧ m'.device.Operable ∧
      m'.device.control = c.settled m.device.control ∧
      SpiModel.Sends c.requested m.device m'.device := by
  cases c with
  | writeBlock bytes =>
      have hret := s.returns_writeBlock h.quiet h.role bytes
      exact ⟨.sent (.ok ()), _, hret.bind (returns_done.mpr ⟨rfl, rfl⟩), h.transferred bytes 0,
        rfl, rfl⟩
  | readBlock buffer =>
      have hret := s.returns_readBlock h.quiet h.role buffer
      exact ⟨.received (.ok ()) _, _, hret.bind (returns_done.mpr ⟨rfl, rfl⟩),
        h.transferred _ _, rfl, rfl⟩
  | withTransaction body =>
      obtain ⟨answers, m', hbody, ⟨hinv, hcontrol⟩, hsends⟩ :=
        s.exists_returns_body (m := { m with device := m.device.begun }) h.begun
          (List.all_eq_true.mp hc)
      have hret := s.returns_withTransaction h.quiet hbody hinv.quiet
      refine ⟨.transaction answers, _, hret.bind (returns_done.mpr ⟨rfl, rfl⟩),
        hinv.toOperable.ended, ?_, hsends⟩
      show closedControl m'.device.control = closedControl m.device.control
      rw [hcontrol]
      exact closedControl_openControl m.device.control
  | _ => cases hc

theorem exists_returns_operations (h : m.device.Operable) {commands : List Command}
    (hc : ∀ c ∈ commands, c.isOperation = true) :
    ∃ answers m', Returns SpiModel.platform (s.performAll commands) m answers m' ∧
      m'.device.Operable ∧
      SpiModel.Sends (commands.flatMap Command.requested) m.device m'.device := by
  refine s.exists_returns_performAll (fun m₁ c hinv hok => ?_) h hc
  obtain ⟨a, m₂, hret, hinv', -, hsends⟩ := s.exists_returns_operation hinv hok
  exact ⟨a, m₂, hret, hinv', hsends⟩

/-! ## Runs -/

theorem returns_performAll_append {before after : List Command} {as bs : List Answer}
    {m₁ m₂ : Machine SpiModel} (hbefore : Returns SpiModel.platform (s.performAll before) m as m₁)
    (hafter : Returns SpiModel.platform (s.performAll after) m₁ bs m₂) :
    Returns SpiModel.platform (s.performAll (before ++ after)) m (as ++ bs) m₂ := by
  induction before generalizing m as with
  | nil =>
      obtain ⟨rfl, rfl⟩ := returns_done.mp hbefore
      exact hafter
  | cons c rest ih =>
      obtain ⟨a, m', hc, hmore⟩ := returns_bind.mp hbefore
      obtain ⟨as', m'', hrest, hdone⟩ := returns_bind.mp hmore
      obtain ⟨rfl, rfl⟩ := returns_done.mp hdone
      exact hc.bind ((ih hrest).bind (returns_done.mpr ⟨rfl, rfl⟩))

/-- **Every byte leaves inside a transaction, in order, none lost or added.** From any
operable block, whatever it was busy with, a run of block transfers and transactions
returns and the frames grow by those of the bytes asked for, each with the slave
selected by software. At each operation in it, the control word goes from one before it
to the settled one after. -/
theorem operations_send_requested (h : m.device.Operable) (commands : List Command)
    (hc : ∀ c ∈ commands, c.isOperation = true) :
    ∃ answers m', Returns SpiModel.platform (s.performAll commands) m answers m' ∧
      m'.device.frames
        = m.device.frames ++ SpiModel.selectedFrames (commands.flatMap Command.requested) ∧
      ∀ before c after, commands = before ++ c :: after → ∃ as m₁ a m₂ bs,
        Returns SpiModel.platform (s.performAll before) m as m₁ ∧
        Returns SpiModel.platform (s.perform c) m₁ a m₂ ∧
        Returns SpiModel.platform (s.performAll after) m₂ bs m' ∧
        answers = as ++ a :: bs ∧ m₂.device.control = c.settled m₁.device.control := by
  obtain ⟨answers, m', hret, -, hsends⟩ := s.exists_returns_operations h hc
  refine ⟨answers, m', hret, hsends, ?_⟩
  rintro before c after rfl
  obtain ⟨as, m₁, hbefore, hinv, -⟩ :=
    s.exists_returns_operations h fun d hd => hc d (List.mem_append_left _ hd)
  obtain ⟨a, m₂, hstep, hinv', hcontrol, -⟩ := s.exists_returns_operation hinv
    (hc c (List.mem_append_right _ List.mem_cons_self))
  obtain ⟨bs, m₃, hafter, -, -⟩ := s.exists_returns_operations hinv'
    fun d hd => hc d (List.mem_append_right _ (List.mem_cons_of_mem c hd))
  -- The run in three parts is the run.
  have hrest : Returns SpiModel.platform (s.performAll (c :: after)) m₁ (a :: bs) m₃ :=
    hstep.bind (hafter.bind (returns_done.mpr ⟨rfl, rfl⟩))
  obtain ⟨rfl, rfl⟩ := hret.unique (s.returns_performAll_append hbefore hrest)
  exact ⟨as, m₁, a, m₂, bs, hbefore, hstep, hafter, rfl, hcontrol⟩

/-- Block transfers inside an open transaction, on a busy block with stale bytes. -/
theorem operations_send_requested_nested :
    let s : Spi := ⟨MemoryMap.full.spi0⟩
    let m : Machine SpiModel := { device := { SpiModel.master with
      txStored := 0x500, rxStored := 0x1000, busyPolls := 3, rx := [9, 9], miso := [1, 2] } }
    let body : List Command :=
      [.writeByte 7, .writeBlock [8], .transferByte 9, .readBlock [0, 0], .writeByte 5]
    ∃ answers m', Returns SpiModel.platform
        (s.performAll [.writeBlock [1, 2], .withTransaction body, .readBlock [4]]) m answers m' ∧
      m'.device.frames = #[⟨1, true, true⟩, ⟨2, true, true⟩, ⟨7, true, true⟩, ⟨8, true, true⟩,
        ⟨9, true, true⟩, ⟨0, true, true⟩, ⟨0, true, true⟩, ⟨5, true, true⟩, ⟨0, true, true⟩] := by
  intro s m body
  have hm : m.device.Operable := ⟨⟨by decide, by decide⟩, by decide, rfl⟩
  obtain ⟨answers, m', hret, hframes, -⟩ := operations_send_requested s hm
    [.writeBlock [1, 2], .withTransaction body, .readBlock [4]] (by decide)
  exact ⟨answers, m', hret, hframes⟩

end Spi

end BoardSupport
