import BoardSupport.Proofs.Spi.Frames
import BoardSupport.Proofs.Spi.Snapshot
import BoardSupport.Proofs.Spi.Transaction

/-!
# The protocol of a block transfer

A block transfer of the SPI driver, on any hardware that lets it return: the control word
is read twice and written back last, and in between a master makes one transaction and a
slave makes no access (`blockTransfer_protocol`). The two transfers differ in the body of
their transaction; what frames it is the same (`behaves_asMaster`).
-/

namespace BoardSupport.Spi

open Program

variable {b : Block} {sent taken : List UInt8} {trace : List Exchange} (s : Spi)

/-! ## Block transfers -/

theorem behaves_writeTransaction (bytes : List UInt8) :
    Behaves (do
        s.beginTransaction
        s.disable .rx
        s.writeBytes bytes
        s.endTransaction
        s.enable .rx) (fun _ => True) fun _ => Transaction s.block bytes [] := by
  have hdisable : Quiet s.block (.wrote s.block (.statusClear .rx) enableMask) :=
    quiet_wrote nofun nofun (by simp)
  have henable : Quiet s.block (.wrote s.block (.statusSet .rx) enableMask) :=
    quiet_wrote nofun nofun (by simp)
  refine s.behaves_beginTransaction.andThen ?_
  rintro - - ⟨before, select, stale, rfl, hselect, hbefore, readyBefore⟩
  refine (s.behaves_write (.statusClear .rx) enableMask).andThen ?_
  rintro - - rfl
  refine (s.behaves_writeBytes bytes).andThen fun _ body hbody => ?_
  refine s.behaves_endTransaction.andThen ?_
  rintro - - ⟨ready, deselect, after, rfl, hdeselect, hready, readyInside, hafter⟩
  refine (s.behaves_write (.statusSet .rx) enableMask).ends ?_
  rintro - - rfl
  have htransaction := Transaction.of_ends hselect hdeselect hbefore readyBefore
    ((Segment.quiet hdisable).append (.moves hbody)) hready readyInside hafter (.quiet henable)
  simpa using htransaction

theorem behaves_readTransaction (count : Nat) :
    Behaves (do
        s.beginTransaction
        s.enable .rx
        let bytes ← s.readBytes count
        s.endTransaction
        return bytes) (fun _ => True) fun bytes t => bytes.length = count ∧
          Transaction s.block (List.replicate count 0) bytes t := by
  have henable : Quiet s.block (.wrote s.block (.statusSet .rx) enableMask) :=
    quiet_wrote nofun nofun (by simp)
  refine s.behaves_beginTransaction.andThen ?_
  rintro - - ⟨before, select, stale, rfl, hselect, hbefore, readyBefore⟩
  refine (s.behaves_write (.statusSet .rx) enableMask).andThen ?_
  rintro - - rfl
  refine (s.behaves_readBytes count).andThen ?_
  rintro bytes body ⟨hlen, hbody⟩
  refine s.behaves_endTransaction.andThen ?_
  rintro - - ⟨ready, deselect, after, rfl, hdeselect, hready, readyInside, hafter⟩
  have htransaction := Transaction.of_ends hselect hdeselect hbefore readyBefore
    ((Segment.quiet henable).append (.moves hbody)) hready readyInside hafter (.moves .nil)
  refine Behaves.done ⟨hlen, ?_⟩
  simpa using htransaction

/-- The control word shows a slave: by the reset role (bit 20) when the role is fixed
(bit 21), and by the role that software asked for (bit 16) when it is not. -/
def ShowsSlave (word : UInt32) : Prop :=
  if bitAt word 21 then bitAt word 20 = false else bitAt word 16 = false

theorem effectiveRole_eq_slave {word : UInt32} : effectiveRole word = .slave ↔ ShowsSlave word := by
  have hfixed : configFixedField.isSet word = bitAt word 21 := Field.isSet_bit (by decide)
  have hreset : resetRoleField.isSet word = bitAt word 20 := Field.isSet_bit (by decide)
  have hmaster : masterField.isSet word = bitAt word 16 := Field.isSet_bit (by decide)
  have hrole : ∀ set, Role.ofBit set = .slave ↔ set = false := by decide
  unfold effectiveRole ShowsSlave
  rw [hfixed, hreset, hmaster, hrole]
  cases bitAt word 21 with
  | true => simp
  | false => simp

/-- The register accesses of a trace. -/
def accesses (trace : List Exchange) : List Exchange := trace.filter (·.request.isAccess)

theorem accesses_append (trace trace' : List Exchange) :
    accesses (trace ++ trace') = accesses trace ++ accesses trace' :=
  List.filter_append _ _

theorem Transaction.accesses_eq (h : Transaction b sent taken trace) : accesses trace = trace := by
  refine List.filter_eq_self.mpr fun e he => ?_
  rcases h.mem_cases he with hsteady | ⟨value, rfl, -⟩ | ⟨value, rfl, -⟩
  · exact hsteady.access
  · rfl
  · rfl

/-- A transaction changes the control word through its aliases only. -/
theorem Transaction.control_untouched (h : Transaction b sent taken trace) :
    ∀ e ∈ trace, ¬ e.Reads b .control ∧ ¬ e.Writes b .control := by
  intro e he
  rcases h.mem_cases he with hsteady | ⟨value, rfl, -⟩ | ⟨value, rfl, -⟩
  · exact ⟨hsteady.notRead, hsteady.notWritten⟩
  · simp
  · simp

theorem behaves_report (level : LogLevel) (target : LogTarget) (text : String) :
    Behaves (report level target (pure text)) (fun _ => True) fun _ t => accesses t = [] := by
  have hfilter : Behaves (request .logFilter) (fun _ => True)
      fun filter t => t = [⟨.logFilter, filter⟩] := Behaves.request trivial fun _ => rfl
  refine hfilter.andThen ?_
  rintro filter - rfl
  cases hheard : filter.admits level with
  | false => exact Behaves.done rfl
  | true => exact Behaves.request trivial fun _ => rfl

/-- The control word is read twice and written back last; in between is what a master
does, and nothing for a slave. -/
theorem behaves_asMaster {α : Type} {after : α → List Exchange → Prop} (warning : String)
    {body : Program α} (hbody : Behaves body (fun _ => True) after)
    (hall : ∀ v t, after v t → accesses t = t) :
    Behaves (s.asMaster warning body) (fun _ => True) fun result t => ∃ snapshot role rest,
      accesses t = .read s.block .control snapshot :: .read s.block .control role ::
        (rest ++ [.wrote s.block .control snapshot]) ∧
      match result with
      | .ok v => ¬ ShowsSlave role ∧ after v rest
      | .error e => ShowsSlave role ∧ e = .unsupported ∧ rest = [] := by
  have hread : Behaves s.control (fun _ => True)
      fun word t => t = [.read s.block .control word] := Behaves.request trivial fun _ => rfl
  have hmaster : Behaves s.isMaster (fun _ => True) fun v t => ∃ role,
      t = [.read s.block .control role] ∧ v = (effectiveRole role == .master) := by
    have hrole : Behaves s.role (fun _ => True) fun v t => ∃ role,
        t = [.read s.block .control role] ∧ v = effectiveRole role :=
      hread.map fun word t h => ⟨word, h, rfl⟩
    refine hrole.map ?_
    rintro v t ⟨role, rfl, rfl⟩
    exact ⟨role, rfl, rfl⟩
  have hrestore := fun snapshot => s.behaves_write .control snapshot
  refine hread.andThen ?_
  rintro snapshot - rfl
  refine hmaster.andThen ?_
  rintro - - ⟨role, rfl, rfl⟩
  cases hrole : effectiveRole role with
  | master =>
      have hnot : ¬ ShowsSlave role := by
        rw [← effectiveRole_eq_slave, hrole]
        nofun
      refine hbody.andThen fun v t ht => ?_
      refine (hrestore snapshot).map ?_
      rintro - - rfl
      refine ⟨snapshot, role, t, ?_, hnot, ht⟩
      rw [accesses_append, accesses_append, accesses_append, hall v t ht]
      rfl
  | slave =>
      refine (behaves_report .warn .spi warning).andThen fun _ t ht => ?_
      refine (hrestore snapshot).map ?_
      rintro - - rfl
      refine ⟨snapshot, role, [], ?_, effectiveRole_eq_slave.mp hrole, rfl, rfl⟩
      rw [accesses_append, accesses_append, accesses_append, ht]
      rfl

/-- The answer to a block transfer that a slave is asked for; a buffer stays as it is. -/
def Command.refusal : Command → Answer
  | .readBlock buffer => .received (.error .unsupported) buffer
  | _ => .sent (.error .unsupported)

/-- The answer to a block transfer that has taken these bytes: a read fills its buffer with
them, and a write takes none. -/
def Command.Delivers : Command → Answer → List UInt8 → Prop
  | .writeBlock _, .sent (.ok ()), received => received = []
  | .readBlock buffer, .received (.ok ()) filled, received =>
    filled = received ∧ received.length = buffer.length
  | _, _, _ => False

theorem Command.Delivers.ne_refusal {c : Command} {answer : Answer} {received : List UInt8}
    (h : c.Delivers answer received) : answer ≠ c.refusal := by
  rintro rfl
  cases c with
  | writeBlock bytes | readBlock buffer => exact h
  | _ => exact h

/-- A block transfer reads the control word twice and writes it back last. A slave does
nothing else and refuses; a master makes one transaction and delivers what it took. -/
def FollowsProtocol (b : Block) (c : Command) (answer : Answer) (trace : List Exchange) : Prop :=
  ∃ snapshot role rest,
    accesses trace = .read b .control snapshot :: .read b .control role ::
      (rest ++ [.wrote b .control snapshot]) ∧
    ((ShowsSlave role ∧ answer = c.refusal ∧ rest = []) ∨
      (¬ ShowsSlave role ∧ ∃ received, c.Delivers answer received ∧
        Transaction b c.bytes received rest))

theorem behaves_perform {c : Command} (hc : c.isBlockTransfer = true) :
    Behaves (s.perform c) (fun _ => True) (FollowsProtocol s.block c) := by
  cases c with
  | writeBlock bytes =>
      refine (s.behaves_asMaster _ (s.behaves_writeTransaction bytes)
        fun _ _ h => h.accesses_eq).map ?_
      rintro result t ⟨snapshot, role, rest, haccesses, h⟩
      refine ⟨snapshot, role, rest, haccesses, ?_⟩
      cases result with
      | ok v => exact Or.inr ⟨h.1, [], rfl, h.2⟩
      | error e =>
          obtain ⟨hslave, rfl, hnone⟩ := h
          exact Or.inl ⟨hslave, rfl, hnone⟩
  | readBlock buffer =>
      have hread : Behaves (s.readBlock buffer) (fun _ => True) fun v =>
          FollowsProtocol s.block (.readBlock buffer) (.received v.1 v.2) := by
        refine (s.behaves_asMaster _ (s.behaves_readTransaction buffer.length)
          fun _ _ h => h.2.accesses_eq).bind (fun _ h => h) ?_
        rintro result t ⟨snapshot, role, rest, haccesses, h⟩
        cases result with
        | ok bytes =>
            obtain ⟨hmaster, hlen, htransaction⟩ := h
            refine Behaves.done ?_
            rw [List.append_nil]
            exact ⟨snapshot, role, rest, haccesses,
              Or.inr ⟨hmaster, bytes, ⟨rfl, hlen⟩, htransaction⟩⟩
        | error e =>
            obtain ⟨hslave, rfl, hnone⟩ := h
            refine Behaves.done ?_
            rw [List.append_nil]
            exact ⟨snapshot, role, rest, haccesses, Or.inl ⟨hslave, rfl, hnone⟩⟩
      exact hread.map fun _ _ h => h
  | _ => cases hc

/-- **A block transfer follows the protocol on any hardware.** If it returns, its first
access has read the control word and its last one has written that word back, and the
word itself was not written in between. It refuses if and only if the second reading of
the control word shows a slave, and then it has made no other access; otherwise it has
made one transaction, in which the bytes asked for were queued and the bytes delivered
were taken. -/
theorem blockTransfer_protocol {σ : Type} (p : Platform σ) (s : Spi) {c : Command}
    (hc : c.isBlockTransfer = true) {start finish : Recorded σ} {answer : Answer}
    (h : Returns p.recorded (s.perform c) start answer finish) :
    ∃ trace snapshot role rest,
      finish.trace.toList = start.trace.toList ++ trace ∧
      accesses trace = .read s.block .control snapshot :: .read s.block .control role ::
        (rest ++ [.wrote s.block .control snapshot]) ∧
      (∀ e ∈ rest, ¬ e.Reads s.block .control ∧ ¬ e.Writes s.block .control) ∧
      (answer = c.refusal ↔ ShowsSlave role) ∧
      (ShowsSlave role → rest = []) ∧
      (¬ ShowsSlave role → ∃ received, c.Delivers answer received ∧
        Transaction s.block c.bytes received rest) := by
  obtain ⟨trace, hans, snapshot, role, rest, haccesses, h⟩ := (s.behaves_perform hc).of_returns h
  refine ⟨trace, snapshot, role, rest, hans.recorded, haccesses, ?_⟩
  rcases h with ⟨hslave, hrefused, rfl⟩ | ⟨hmaster, received, hdelivers, htransaction⟩
  · exact ⟨by simp, ⟨fun _ => hslave, fun _ => hrefused⟩, fun _ => rfl,
      fun hmaster => absurd hslave hmaster⟩
  · exact ⟨htransaction.control_untouched,
      ⟨fun hrefused => absurd hrefused hdelivers.ne_refusal, fun hslave => absurd hslave hmaster⟩,
      fun hslave => absurd hslave hmaster, fun _ => ⟨received, hdelivers, htransaction⟩⟩

/-- A master with a stale byte, busy for two readings, fills a buffer with what comes in. -/
theorem blockTransfer_protocol_stale :
    let s : Spi := ⟨MemoryMap.full.spi0⟩
    let start : Recorded (Machine SpiModel) :=
      { inner := { device := { control := 0x1011000, busyPolls := 2, rx := [7], miso := [0xAB] } } }
    let c : Command := .readBlock [1, 2]
    c.isBlockTransfer = true ∧ ∃ finish,
      Returns SpiModel.platform.recorded (s.perform c) start (.received (.ok ()) [0xAB, 0])
        finish ∧
      ∃ rest, Transaction s.block [0, 0] [0xAB, 0] rest := by
  have hrun : ∃ finish, Returns SpiModel.platform.recorded
      (perform ⟨MemoryMap.full.spi0⟩ (.readBlock [1, 2]))
      { inner := { device := { control := 0x1011000, busyPolls := 2, rx := [7], miso := [0xAB] } } }
      (.received (.ok ()) [0xAB, 0]) finish := ⟨_, 4, rfl⟩
  intro s start c
  obtain ⟨finish, hret⟩ := hrun
  obtain ⟨trace, snapshot, role, rest, -, -, -, hrefused, -, hmaster⟩ :=
    blockTransfer_protocol SpiModel.platform s (c := c) rfl hret
  refine ⟨rfl, finish, hret, rest, ?_⟩
  have hnot : ¬ ShowsSlave role := fun hslave => nomatch hrefused.mpr hslave
  obtain ⟨received, ⟨hreceived, -⟩, htransaction⟩ := hmaster hnot
  rw [hreceived]
  exact htransaction

end BoardSupport.Spi
