import BoardSupport.Proofs.Uart.Transfers
import BoardSupport.Spi.Command

/-!
# Transactions, as they are exchanged

What the transfers of the SPI driver exchange, whatever answers them. A trace between two
changes of the slave select is a `Segment`: bytes moved by the handshake, and quiet
accesses between them. A `Transaction` is three segments with the select going down and
up again between them, each time after a reading that showed no transfer in flight with
no byte queued since (`ReadySince`); what `beginTransaction` and `endTransaction`
exchange makes one around any segment (`Transaction.of_ends`).
-/

namespace BoardSupport.Spi

open Program
open Fifo (Flag Moves ShowsRoom ShowsByte)

/-! ## Traces -/

/-- The exchange drives the slave select low. -/
def Selects (b : Block) (e : Exchange) : Prop :=
  ∃ value, e = .wrote b .controlClear value ∧ bitAt value 12 = true

/-- The exchange drives the slave select high. -/
def Deselects (b : Block) (e : Exchange) : Prop :=
  ∃ value, e = .wrote b .controlSet value ∧ bitAt value 12 = true

/-- An access of a register which leaves the control word itself and the slave select
alone. -/
structure Steady (b : Block) (e : Exchange) : Prop where
  access : e.request.isAccess = true
  notRead : ¬ e.Reads b .control
  notWritten : ¬ e.Writes b .control
  notSelecting : ¬ Selects b e
  notDeselecting : ¬ Deselects b e

/-- Some reading of the transmit status showed no transfer in flight (bit 20), and no byte
was queued after it. -/
def ReadySince (b : Block) (trace : List Exchange) : Prop :=
  ∃ earlier word later, trace = earlier ++ .read b (.status .tx) word :: later ∧
    bitAt word 20 = true ∧ ∀ e ∈ later, ¬ e.Writes b .data

/-- One transaction: the select goes down once and up once, each time with no transfer in
flight; the bytes `sent` are queued in between, each with room, and `received` are the low
bytes of what is read in between. -/
inductive Transaction (b : Block) (sent received : List UInt8) : List Exchange → Prop
  | mk {before inside after : List Exchange} {select deselect : Exchange}
      (selects : Selects b select) (deselects : Deselects b deselect)
      (steady : ∀ e ∈ before ++ inside ++ after, Steady b e)
      (queued : inside.filterMap (Exchange.wroteTo? b .data) = sent.map UInt8.toUInt32)
      (notQueued : ∀ e ∈ before ++ after, ¬ e.Writes b .data)
      (taken : (inside.filterMap (Exchange.readOf? b .data)).map UInt32.toUInt8 = received)
      (notTaken : ∀ e ∈ after, ¬ e.Reads b .data)
      (readyBefore : ReadySince b before) (readyInside : ReadySince b inside)
      (writesWithRoom : RightAfter (ShowsRoom b) (Exchange.Writes b .data)
        (before ++ select :: (inside ++ deselect :: after)))
      (readsWithByte : RightAfter (ShowsByte b) (Exchange.Reads b .data)
        (before ++ select :: (inside ++ deselect :: after))) :
      Transaction b sent received (before ++ select :: (inside ++ deselect :: after))

/-! ## Segments -/

/-- A steady access that moves no byte. -/
structure Quiet (b : Block) (e : Exchange) : Prop extends Steady b e where
  notQueued : ¬ e.Writes b .data
  notTaken : ¬ e.Reads b .data

/-- Bytes moved by the handshake, and quiet accesses between them. -/
inductive Segment (b : Block) : (sent taken : List UInt8) → List Exchange → Prop
  | moves {sent taken : List UInt8} {trace : List Exchange} (h : Moves b sent taken trace) :
      Segment b sent taken trace
  | quiet {e : Exchange} (h : Quiet b e) : Segment b [] [] [e]
  | append {sent sent' taken taken' : List UInt8} {trace trace' : List Exchange}
      (h : Segment b sent taken trace) (h' : Segment b sent' taken' trace') :
      Segment b (sent ++ sent') (taken ++ taken') (trace ++ trace')

variable {b : Block} {sent taken : List UInt8} {trace trace' : List Exchange} {e : Exchange}

theorem steady_read {r : Fifo.Register} (hr : r ≠ .control) (word : UInt32) :
    Steady b (.read b r word) where
  access := rfl
  notRead := by simpa using hr
  notWritten := by simp
  notSelecting := fun ⟨_, h, _⟩ => Exchange.read_ne_wrote h
  notDeselecting := fun ⟨_, h, _⟩ => Exchange.read_ne_wrote h

theorem steady_wrote {r : Fifo.Register} {value : UInt32} (hr : r ≠ .control)
    (hvalue : r = .controlSet ∨ r = .controlClear → bitAt value 12 = false) :
    Steady b (.wrote b r value) where
  access := rfl
  notRead := by simp
  notWritten := by simpa using hr
  notSelecting := by
    rintro ⟨v, h, hbit⟩
    obtain ⟨rfl, rfl⟩ := Exchange.wrote_inj.mp h
    rw [hvalue (Or.inr rfl)] at hbit
    cases hbit
  notDeselecting := by
    rintro ⟨v, h, hbit⟩
    obtain ⟨rfl, rfl⟩ := Exchange.wrote_inj.mp h
    rw [hvalue (Or.inl rfl)] at hbit
    cases hbit

/-- A write that moves no byte, and is steady if it leaves bit 12 alone. -/
theorem quiet_wrote {r : Fifo.Register} {value : UInt32} (hr : r ≠ .control) (hd : r ≠ .data)
    (hvalue : r = .controlSet ∨ r = .controlClear → bitAt value 12 = false) :
    Quiet b (.wrote b r value) :=
  { steady_wrote hr hvalue with
    notQueued := by simpa using hd
    notTaken := by simp }

namespace Segment

theorem steady (h : Segment b sent taken trace) : ∀ e ∈ trace, Steady b e := by
  induction h with
  | moves h =>
      intro e he
      rcases h.handshake.accesses e he with ⟨side, word, rfl⟩ | ⟨word, rfl⟩ | ⟨value, rfl⟩
      · exact steady_read (r := .status side) nofun word
      · exact steady_read (r := .data) nofun word
      · exact steady_wrote (r := .data) nofun (by simp)
  | quiet h =>
      intro e he
      rw [List.mem_singleton.mp he]
      exact h.toSteady
  | append _ _ ih ih' =>
      intro e he
      rcases List.mem_append.mp he with he | he
      · exact ih e he
      · exact ih' e he

theorem wroteTo (h : Segment b sent taken trace) :
    trace.filterMap (Exchange.wroteTo? b .data) = sent.map UInt8.toUInt32 := by
  induction h with
  | moves h => exact h.wroteTo
  | quiet h => simp [Exchange.wroteTo?_eq_none.mpr h.notQueued]
  | append _ _ ih ih' => rw [List.filterMap_append, ih, ih', List.map_append]

theorem readOf (h : Segment b sent taken trace) :
    (trace.filterMap (Exchange.readOf? b .data)).map UInt32.toUInt8 = taken := by
  induction h with
  | moves h => exact h.readOf
  | quiet h => simp [Exchange.readOf?_eq_none.mpr h.notTaken]
  | append _ _ ih ih' => rw [List.filterMap_append, List.map_append, ih, ih']

theorem writesWithRoom (h : Segment b sent taken trace) :
    RightAfter (ShowsRoom b) (Exchange.Writes b .data) trace := by
  induction h with
  | moves h => exact h.writesWithRoom
  | quiet h =>
      refine .of_forall_not fun e he => ?_
      rw [List.mem_singleton.mp he]
      exact h.notQueued
  | append _ _ ih ih' => exact ih.append ih'

theorem readsWithByte (h : Segment b sent taken trace) :
    RightAfter (ShowsByte b) (Exchange.Reads b .data) trace := by
  induction h with
  | moves h => exact h.readsWithByte
  | quiet h =>
      refine .of_forall_not fun e he => ?_
      rw [List.mem_singleton.mp he]
      exact h.notTaken
  | append _ _ ih ih' => exact ih.append ih'

theorem not_queued (h : Segment b [] taken trace) : ∀ e ∈ trace, ¬ e.Writes b .data := by
  intro e he
  exact Exchange.wroteTo?_eq_none.mp (List.filterMap_eq_nil_iff.mp h.wroteTo e he)

theorem not_taken (h : Segment b sent [] trace) : ∀ e ∈ trace, ¬ e.Reads b .data := by
  intro e he
  have hnone := List.map_eq_nil_iff.mp h.readOf
  exact Exchange.readOf?_eq_none.mp (List.filterMap_eq_nil_iff.mp hnone e he)

end Segment

namespace ReadySince

theorem append (h : ReadySince b trace) (hlater : ∀ e ∈ trace', ¬ e.Writes b .data) :
    ReadySince b (trace ++ trace') := by
  obtain ⟨earlier, word, later, rfl, hready, hnone⟩ := h
  refine ⟨earlier, word, later ++ trace', ?_, hready, fun e he => ?_⟩
  · simp
  · rcases List.mem_append.mp he with he | he
    · exact hnone e he
    · exact hlater e he

theorem after (h : ReadySince b trace') (trace : List Exchange) :
    ReadySince b (trace ++ trace') := by
  obtain ⟨earlier, word, later, rfl, hready, hnone⟩ := h
  exact ⟨trace ++ earlier, word, later, by simp, hready, hnone⟩

end ReadySince

/-- A transaction from its three segments. -/
theorem Transaction.of_segments {before inside after : List Exchange} {select deselect : Exchange}
    {stale : List UInt8} (hselect : Selects b select) (hdeselect : Deselects b deselect)
    (hbefore : Segment b [] stale before) (readyBefore : ReadySince b before)
    (hinside : Segment b sent taken inside) (readyInside : ReadySince b inside)
    (hafter : Segment b [] [] after) :
    Transaction b sent taken (before ++ select :: (inside ++ deselect :: after)) := by
  obtain ⟨low, rfl, hlow⟩ := hselect
  obtain ⟨high, rfl, hhigh⟩ := hdeselect
  refine .mk ⟨low, rfl, hlow⟩ ⟨high, rfl, hhigh⟩ ?_ hinside.wroteTo ?_ hinside.readOf
    hafter.not_taken readyBefore readyInside ?_ ?_
  · intro e he
    exact ((hbefore.append hinside).append hafter).steady e he
  · intro e he
    rcases List.mem_append.mp he with he | he
    · exact hbefore.not_queued e he
    · exact hafter.not_queued e he
  · have hrest : RightAfter (ShowsRoom b) (Exchange.Writes b .data)
        (.wrote b .controlSet high :: after) := hafter.writesWithRoom.cons (by simp)
    exact hbefore.writesWithRoom.append ((hinside.writesWithRoom.append hrest).cons (by simp))
  · have hrest : RightAfter (ShowsByte b) (Exchange.Reads b .data)
        (.wrote b .controlSet high :: after) := hafter.readsWithByte.cons (by simp)
    exact hbefore.readsWithByte.append ((hinside.readsWithByte.append hrest).cons (by simp))

/-! ## What the operations exchange -/

variable (s : Spi)

theorem behaves_writeByte (byte : UInt8) :
    Behaves (s.writeByte byte) (fun _ => True) fun _ => Moves s.block [byte] [] :=
  ((⟨s.block⟩ : Uart).behaves_writeByte byte).ends fun _ _ h => h

theorem behaves_readByte :
    Behaves s.readByte (fun _ => True) fun byte => Moves s.block [] [byte] := by
  have hwait := (⟨s.block⟩ : Uart).behaves_waitClear .rx .empty
  refine hwait.andThen ?_
  rintro - - ⟨polls, word, rfl, hpolls, hbyte⟩
  have hread : Behaves (s.readWord .data) (fun _ => True)
      fun value t => t = [.read s.block .data value] := Behaves.request trivial fun _ => rfl
  refine hread.map fun value t h => ?_
  subst h
  rw [List.append_assoc]
  exact hpolls.append (.read value hbyte .nil)

theorem behaves_transferByte (byte : UInt8) :
    Behaves (s.transferByte byte) (fun _ => True) fun reply => Moves s.block [byte] [reply] :=
  (s.behaves_writeByte byte).andThen fun _ _ ht =>
    s.behaves_readByte.ends fun _ _ h => ht.append h

theorem behaves_writeBytes (bytes : List UInt8) :
    Behaves (s.writeBytes bytes) (fun _ => True) fun _ => Moves s.block bytes [] := by
  induction bytes with
  | nil => exact Behaves.done .nil
  | cons byte rest ih =>
      refine (s.behaves_writeByte byte).andThen fun _ t ht => ?_
      exact ih.ends fun _ _ h => ht.append h

theorem behaves_readBytes (count : Nat) :
    Behaves (s.readBytes count) (fun _ => True) fun bytes t =>
      bytes.length = count ∧ Moves s.block (List.replicate count 0) bytes t := by
  induction count with
  | zero => exact Behaves.done ⟨rfl, .nil⟩
  | succ count ih =>
      refine (s.behaves_transferByte 0).andThen fun byte t ht => ?_
      refine (ih.ends fun _ _ h => h).map ?_
      rintro bytes t' ⟨hlen, h⟩
      exact ⟨congrArg Nat.succ hlen, ht.append h⟩

theorem behaves_waitTxReady :
    Behaves s.waitTxReady (fun _ => True) fun _ t =>
      ReadySince s.block t ∧ Moves s.block [] [] t := by
  have hmask : readyMask = (Field.bit 20).mask := by decide
  have htest : Behaves s.txReady (fun _ => True) fun v t =>
      ∃ word, t = [.read s.block (.status .tx) word] ∧ v = bitAt word 20 := by
    have hread : Behaves (s.readWord (.status .tx)) (fun _ => True)
        fun word t => t = [.read s.block (.status .tx) word] :=
      Behaves.request trivial fun _ => rfl
    refine hread.map fun word t h => ⟨word, h, ?_⟩
    rw [hmask]
    exact Field.isSet_bit (by decide)
  refine Behaves.waitUntil (I := Moves s.block [] []) (fun _ _ => trivial) (fun t ht => ?_) .nil
  refine htest.ends ?_
  rintro v t' ⟨word, rfl, rfl⟩
  have hmoves : Moves s.block [] [] (t ++ [.read s.block (.status .tx) word]) :=
    ht.append (.poll .tx word .nil)
  cases hready : bitAt word 20 with
  | true => exact ⟨⟨t, word, [], rfl, hready, by simp⟩, hmoves⟩
  | false => exact hmoves

/-- Draining takes whatever there is. -/
theorem behaves_flushRx :
    Behaves s.flushRx (fun _ => True) fun _ t => ∃ stale, Moves s.block [] stale t := by
  refine Behaves.poll (I := fun t => ∃ stale, Moves s.block [] stale t) (fun _ _ => trivial)
    ?_ ⟨[], .nil⟩
  rintro t ⟨stale, ht⟩
  refine ((⟨s.block⟩ : Uart).behaves_hasFlag .rx .empty).andThen ?_
  rintro - - ⟨word, rfl, rfl⟩
  cases hempty : bitAt word Flag.empty.position with
  | true =>
      refine Behaves.done ⟨stale, ?_⟩
      simpa using ht.append (.poll .rx word .nil)
  | false =>
      have hread : Behaves (s.readWord .data) (fun _ => True)
          fun value t => t = [.read s.block .data value] := Behaves.request trivial fun _ => rfl
      refine hread.map fun value t' h => ?_
      subst h
      exact ⟨_, ht.append (.read value hempty .nil)⟩

/-- A write of the driver, as an exchange. -/
theorem behaves_write (r : Fifo.Register) (value : UInt32) :
    Behaves (s.writeWord r value) (fun _ => True) fun _ t => t = [.wrote s.block r value] :=
  Behaves.request trivial fun _ => rfl

theorem behaves_beginTransaction :
    Behaves s.beginTransaction (fun _ => True) fun _ t => ∃ before select stale,
      t = before ++ [select] ∧ Selects s.block select ∧ Segment s.block [] stale before ∧
        ReadySince s.block before := by
  refine s.behaves_waitTxReady.andThen ?_
  rintro - ready ⟨hready, hpolls⟩
  refine s.behaves_flushRx.andThen ?_
  rintro - flushed ⟨stale, hflushed⟩
  refine (s.behaves_write (.statusSet .tx) enableMask).andThen ?_
  rintro - - rfl
  refine (s.behaves_write .controlSet softwareSelectField.mask).andThen ?_
  rintro - - rfl
  refine (s.behaves_write .controlClear selectLevelField.mask).ends ?_
  rintro - - rfl
  have henable : Quiet s.block (.wrote s.block (.statusSet .tx) enableMask) :=
    quiet_wrote nofun nofun (by simp)
  have hsoftware : Quiet s.block (.wrote s.block .controlSet softwareSelectField.mask) :=
    quiet_wrote nofun nofun fun _ => by decide
  have hlater : Segment s.block [] stale (flushed ++ [.wrote s.block (.statusSet .tx) enableMask]
      ++ [.wrote s.block .controlSet softwareSelectField.mask]) := by
    have hquiet := ((Segment.moves hflushed).append (.quiet henable)).append (.quiet hsoftware)
    simpa using hquiet
  refine ⟨ready ++ (flushed ++ [.wrote s.block (.statusSet .tx) enableMask]
      ++ [.wrote s.block .controlSet softwareSelectField.mask]),
    .wrote s.block .controlClear selectLevelField.mask, stale, by simp, ⟨_, rfl, by decide⟩,
    (Segment.moves hpolls).append hlater, hready.append hlater.not_queued⟩

theorem behaves_endTransaction :
    Behaves s.endTransaction (fun _ => True) fun _ t => ∃ ready deselect after,
      t = ready ++ deselect :: after ∧ Deselects s.block deselect ∧
        Segment s.block [] [] ready ∧ ReadySince s.block ready ∧ Segment s.block [] [] after := by
  refine s.behaves_waitTxReady.andThen ?_
  rintro - ready ⟨hready, hpolls⟩
  refine (s.behaves_write .controlSet selectLevelField.mask).andThen ?_
  rintro - - rfl
  refine (s.behaves_write .controlClear softwareSelectField.mask).ends ?_
  rintro - - rfl
  have hhardware : Quiet s.block (.wrote s.block .controlClear softwareSelectField.mask) :=
    quiet_wrote nofun nofun fun _ => by decide
  exact ⟨ready, _, _, rfl, ⟨_, rfl, by decide⟩, .moves hpolls, hready, .quiet hhardware⟩

/-- What is exchanged between the two ends makes a transaction of them. -/
theorem Transaction.of_ends {before ready after tail body : List Exchange}
    {select deselect : Exchange} {stale : List UInt8} (hselect : Selects b select)
    (hdeselect : Deselects b deselect) (hbefore : Segment b [] stale before)
    (readyBefore : ReadySince b before) (hbody : Segment b sent taken body)
    (hready : Segment b [] [] ready) (readyInside : ReadySince b ready)
    (hafter : Segment b [] [] after) (htail : Segment b [] [] tail) :
    Transaction b sent taken
      (before ++ [select] ++ (body ++ (ready ++ deselect :: after ++ tail))) := by
  have hinside : Segment b sent taken (body ++ ready) := by
    have happend := hbody.append hready
    rwa [List.append_nil, List.append_nil] at happend
  have htransaction := Transaction.of_segments hselect hdeselect hbefore readyBefore hinside
    (readyInside.after body) (hafter.append htail)
  simpa using htransaction

/-- Every exchange of a transaction is steady or changes the select. -/
theorem Transaction.mem_cases (h : Transaction b sent taken trace) (he : e ∈ trace) :
    Steady b e ∨ Selects b e ∨ Deselects b e := by
  cases h with
  | mk selects deselects steady _ _ _ _ _ _ _ _ =>
      simp only [List.mem_append, List.mem_cons] at he steady
      rcases he with he | rfl | he | rfl | he
      · exact Or.inl (steady e (Or.inl (Or.inl he)))
      · exact Or.inr (Or.inl selects)
      · exact Or.inl (steady e (Or.inl (Or.inr he)))
      · exact Or.inr (Or.inr deselects)
      · exact Or.inl (steady e (Or.inr he))

end BoardSupport.Spi
