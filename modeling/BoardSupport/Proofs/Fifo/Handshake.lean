import BoardSupport.Fifo.Register
import BoardSupport.Fifo.Status
import BoardSupport.Program.Record
import BoardSupport.Proofs.Register.Bits

/-!
# The handshake with a FIFO block

What a driver exchanges with a FIFO block while it moves bytes: readings of the status,
writes of the data register right after a reading that showed room, and reads of it right
after a reading that showed a byte. `Moves b sent taken trace` builds such a trace from
these pieces and counts the bytes; so it holds of two traces in a row (`Moves.append`).

`Handshake` says the same of a trace as a whole, in terms of what comes right before what
(`Moves.handshake`), and the bytes are what the data register was written and read with
(`Moves.wroteTo`, `Moves.readOf`).
-/

namespace BoardSupport

open Fifo (Side)

/-! ## Exchanges with a FIFO block -/

namespace Exchange

/-- A reading of a register that gave `word`. -/
def read (b : Block) (r : Fifo.Register) (word : UInt32) : Exchange := ⟨.load b r.offset, word⟩

def wrote (b : Block) (r : Fifo.Register) (value : UInt32) : Exchange :=
  ⟨.store b r.offset value, ()⟩

/-- The exchange is a reading of the register. -/
def Reads (b : Block) (r : Fifo.Register) (e : Exchange) : Prop := ∃ word, e = read b r word

/-- The exchange is a write to the register. -/
def Writes (b : Block) (r : Fifo.Register) (e : Exchange) : Prop := ∃ value, e = wrote b r value

/-- What the exchange read from the register, if it is a reading of it. -/
def readOf? (b : Block) (r : Fifo.Register) : Exchange → Option UInt32
  | ⟨.load b' offset, word⟩ => if b' = b ∧ offset = r.offset then some word else none
  | _ => none

/-- What the exchange wrote to the register, if it is a write to it. -/
def wroteTo? (b : Block) (r : Fifo.Register) : Exchange → Option UInt32
  | ⟨.store b' offset value, _⟩ => if b' = b ∧ offset = r.offset then some value else none
  | _ => none

end Exchange

theorem Fifo.Register.offset_inj {r r' : Fifo.Register} : r.offset = r'.offset ↔ r = r' := by
  constructor
  · intro h
    have hsome : some r = some r' := by
      rw [← ofOffset?_offset r, ← ofOffset?_offset r', h]
    exact Option.some.inj hsome
  · rintro rfl
    rfl

section Exchanges

variable {b : Block} {r r' : Fifo.Register} {v : UInt32}

@[simp] theorem Exchange.readOf?_read :
    (Exchange.read b r' v).readOf? b r = if r' = r then some v else none := by
  simp only [read, readOf?, true_and, Fifo.Register.offset_inj]

@[simp] theorem Exchange.readOf?_wrote : (Exchange.wrote b r' v).readOf? b r = none := rfl

@[simp] theorem Exchange.wroteTo?_wrote :
    (Exchange.wrote b r' v).wroteTo? b r = if r' = r then some v else none := by
  simp only [wrote, wroteTo?, true_and, Fifo.Register.offset_inj]

@[simp] theorem Exchange.wroteTo?_read : (Exchange.read b r' v).wroteTo? b r = none := rfl

theorem Exchange.read_inj {w : UInt32} :
    Exchange.read b r v = Exchange.read b r' w ↔ r = r' ∧ v = w := by
  simp only [read, Exchange.mk.injEq, Request.load.injEq, true_and, Fifo.Register.offset_inj]
  constructor
  · rintro ⟨rfl, h⟩
    exact ⟨rfl, eq_of_heq h⟩
  · rintro ⟨rfl, rfl⟩
    exact ⟨rfl, HEq.rfl⟩

theorem Exchange.wrote_inj {w : UInt32} :
    Exchange.wrote b r v = Exchange.wrote b r' w ↔ r = r' ∧ v = w := by
  simp only [wrote, Exchange.mk.injEq, Request.store.injEq, true_and, Fifo.Register.offset_inj]
  constructor
  · rintro ⟨⟨rfl, rfl⟩, -⟩
    exact ⟨rfl, rfl⟩
  · rintro ⟨rfl, rfl⟩
    exact ⟨⟨rfl, rfl⟩, HEq.rfl⟩

theorem Exchange.read_ne_wrote {w : UInt32} : Exchange.read b r v ≠ Exchange.wrote b r' w := by
  intro h
  cases congrArg Exchange.request h

@[simp] theorem Exchange.reads_read : (Exchange.read b r v).Reads b r' ↔ r = r' := by
  constructor
  · rintro ⟨w, h⟩
    exact (read_inj.mp h).1
  · rintro rfl
    exact ⟨v, rfl⟩

@[simp] theorem Exchange.writes_wrote : (Exchange.wrote b r v).Writes b r' ↔ r = r' := by
  constructor
  · rintro ⟨w, h⟩
    exact (wrote_inj.mp h).1
  · rintro rfl
    exact ⟨v, rfl⟩

@[simp] theorem Exchange.not_writes_read : ¬ (Exchange.read b r v).Writes b r' := by
  rintro ⟨w, h⟩
  exact read_ne_wrote h

@[simp] theorem Exchange.not_reads_wrote : ¬ (Exchange.wrote b r v).Reads b r' := by
  rintro ⟨w, h⟩
  exact read_ne_wrote h.symm

theorem Exchange.wroteTo?_eq_none {e : Exchange} : e.wroteTo? b r = none ↔ ¬ e.Writes b r := by
  constructor
  · rintro h ⟨w, rfl⟩
    simp at h
  · intro h
    obtain ⟨request, reply⟩ := e
    cases request with
    | store b' offset value =>
        refine if_neg ?_
        rintro ⟨rfl, rfl⟩
        exact h ⟨value, rfl⟩
    | _ => rfl

theorem Exchange.readOf?_eq_none {e : Exchange} : e.readOf? b r = none ↔ ¬ e.Reads b r := by
  constructor
  · rintro h ⟨w, rfl⟩
    simp at h
  · intro h
    obtain ⟨request, reply⟩ := e
    cases request with
    | load b' offset =>
        refine if_neg ?_
        rintro ⟨rfl, rfl⟩
        exact h ⟨reply, rfl⟩
    | _ => rfl

end Exchanges

/-! ## One exchange right after another -/

/-- Each exchange that is an `access` comes right after one that is a `guard`. -/
def RightAfter (guard access : Exchange → Prop) (trace : List Exchange) : Prop :=
  ∀ before e rest, trace = before ++ e :: rest → access e →
    ∃ earlier g, before = earlier ++ [g] ∧ guard g

namespace RightAfter

variable {guard access : Exchange → Prop} {trace trace' : List Exchange} {e g : Exchange}

theorem of_forall_not (h : ∀ e ∈ trace, ¬ access e) : RightAfter guard access trace := by
  rintro before e rest rfl he
  exact absurd he (h e (List.mem_append_right _ List.mem_cons_self))

/-- A guard and the access that it allows. -/
theorem pair (hg : guard g) (hng : ¬ access g) : RightAfter guard access [g, e] := by
  intro before e' rest h he'
  rcases before with _ | ⟨a, before⟩
  · obtain ⟨rfl, -⟩ := List.cons.inj h
    exact absurd he' hng
  · obtain ⟨rfl, h⟩ := List.cons.inj h
    rcases before with _ | ⟨a', before⟩
    · exact ⟨[], g, rfl, hg⟩
    · have hlen := congrArg List.length h
      simp only [List.length_cons, List.length_append, List.length_nil] at hlen
      omega

theorem append (h : RightAfter guard access trace) (h' : RightAfter guard access trace') :
    RightAfter guard access (trace ++ trace') := by
  intro before e rest heq he
  rcases List.append_eq_append_iff.mp heq with ⟨more, rfl, hmore⟩ | ⟨more, rfl, hmore⟩
  · obtain ⟨earlier, g, rfl, hg⟩ := h' more e rest hmore he
    exact ⟨trace ++ earlier, g, (List.append_assoc _ _ _).symm, hg⟩
  · rcases more with _ | ⟨a, more⟩
    · -- The access opens the second trace, where nothing could allow it.
      obtain ⟨earlier, g, hnil, -⟩ := h' [] e rest (by simpa using hmore.symm) he
      exact absurd hnil (by simp)
    · obtain ⟨rfl, rfl⟩ := List.cons.inj hmore
      exact h before e more rfl he

theorem cons (he : ¬ access e) (h : RightAfter guard access trace) :
    RightAfter guard access (e :: trace) := by
  have hone : RightAfter guard access [e] := by
    refine of_forall_not fun e' he' => ?_
    rwa [List.mem_singleton.mp he']
  exact hone.append h

theorem cons_pair (hg : guard g) (hng : ¬ access g) (h : RightAfter guard access trace) :
    RightAfter guard access (g :: e :: trace) := by
  have hpair : RightAfter guard access [g, e] := pair hg hng
  exact hpair.append h

end RightAfter

/-! ## Moving bytes -/

namespace Fifo

/-- A reading of the transmit status that shows room: bit 16, full, is clear. -/
def ShowsRoom (b : Block) (e : Exchange) : Prop :=
  ∃ word, e = .read b (.status .tx) word ∧ bitAt word 16 = false

/-- A reading of the receive status that shows a byte: bit 17, empty, is clear. -/
def ShowsByte (b : Block) (e : Exchange) : Prop :=
  ∃ word, e = .read b (.status .rx) word ∧ bitAt word 17 = false

/-- The trace moves bytes: it sends `sent` and takes `taken`, each byte right after the
status allowed it, and does nothing else but read the status. -/
inductive Moves (b : Block) : (sent taken : List UInt8) → List Exchange → Prop
  | nil : Moves b [] [] []
  | poll {sent taken : List UInt8} {trace : List Exchange} (side : Side) (word : UInt32)
      (h : Moves b sent taken trace) :
      Moves b sent taken (.read b (.status side) word :: trace)
  | write {sent taken : List UInt8} {trace : List Exchange} {word : UInt32} (byte : UInt8)
      (hroom : bitAt word 16 = false) (h : Moves b sent taken trace) :
      Moves b (byte :: sent) taken
        (.read b (.status .tx) word :: .wrote b .data byte.toUInt32 :: trace)
  | read {sent taken : List UInt8} {trace : List Exchange} {word : UInt32} (value : UInt32)
      (hbyte : bitAt word 17 = false) (h : Moves b sent taken trace) :
      Moves b sent (value.toUInt8 :: taken)
        (.read b (.status .rx) word :: .read b .data value :: trace)

/-- What comes right before each access of the data register, and that there are no other
accesses than these and readings of the status. -/
structure Handshake (b : Block) (trace : List Exchange) : Prop where
  writesWithRoom : RightAfter (ShowsRoom b) (Exchange.Writes b .data) trace
  readsWithByte : RightAfter (ShowsByte b) (Exchange.Reads b .data) trace
  accesses : ∀ e ∈ trace, (∃ side, e.Reads b (.status side)) ∨
    e.Reads b .data ∨ e.Writes b .data

namespace Moves

variable {b : Block} {sent sent' taken taken' : List UInt8} {trace trace' : List Exchange}

theorem append (h : Moves b sent taken trace) (h' : Moves b sent' taken' trace') :
    Moves b (sent ++ sent') (taken ++ taken') (trace ++ trace') := by
  induction h with
  | nil => exact h'
  | poll side word _ ih => exact .poll side word ih
  | write byte hroom _ ih => exact .write byte hroom ih
  | read value hbyte _ ih => exact .read value hbyte ih

/-- The bytes sent are what the data register was written with. -/
theorem wroteTo (h : Moves b sent taken trace) :
    trace.filterMap (Exchange.wroteTo? b .data) = sent.map UInt8.toUInt32 := by
  induction h with
  | nil => rfl
  | poll side word _ ih => simpa [List.filterMap_cons] using ih
  | write byte _ _ ih => simpa [List.filterMap_cons] using ih
  | read value _ _ ih => simpa [List.filterMap_cons] using ih

/-- The bytes taken are the low bytes of what the data register was read with. -/
theorem readOf (h : Moves b sent taken trace) :
    (trace.filterMap (Exchange.readOf? b .data)).map UInt32.toUInt8 = taken := by
  induction h with
  | nil => rfl
  | poll side word _ ih => simpa [List.filterMap_cons] using ih
  | write byte _ _ ih => simpa [List.filterMap_cons] using ih
  | read value _ _ ih => simpa [List.filterMap_cons] using ih

theorem writesWithRoom (h : Moves b sent taken trace) :
    RightAfter (ShowsRoom b) (Exchange.Writes b .data) trace := by
  induction h with
  | nil => exact .of_forall_not fun e he => absurd he List.not_mem_nil
  | poll side word _ ih => exact ih.cons (by simp)
  | write byte hroom _ ih => exact ih.cons_pair ⟨_, rfl, hroom⟩ (by simp)
  | read value hbyte _ ih => exact (ih.cons (by simp)).cons (by simp)

theorem readsWithByte (h : Moves b sent taken trace) :
    RightAfter (ShowsByte b) (Exchange.Reads b .data) trace := by
  induction h with
  | nil => exact .of_forall_not fun e he => absurd he List.not_mem_nil
  | poll side word _ ih => exact ih.cons (by simp)
  | write byte hroom _ ih => exact (ih.cons (by simp)).cons (by simp)
  | read value hbyte _ ih => exact ih.cons_pair ⟨_, rfl, hbyte⟩ (by simp)

theorem handshake (h : Moves b sent taken trace) : Handshake b trace := by
  refine ⟨h.writesWithRoom, h.readsWithByte, ?_⟩
  induction h with
  | nil => exact fun e he => absurd he List.not_mem_nil
  | poll side word _ ih =>
      intro e he
      rcases List.mem_cons.mp he with rfl | he
      · exact Or.inl ⟨side, word, rfl⟩
      · exact ih e he
  | @write _ _ _ word byte _ _ ih =>
      intro e he
      rcases List.mem_cons.mp he with rfl | he
      · exact Or.inl ⟨.tx, word, rfl⟩
      · rcases List.mem_cons.mp he with rfl | he
        · exact Or.inr (Or.inr ⟨_, rfl⟩)
        · exact ih e he
  | @read _ _ _ word value _ _ ih =>
      intro e he
      rcases List.mem_cons.mp he with rfl | he
      · exact Or.inl ⟨.rx, word, rfl⟩
      · rcases List.mem_cons.mp he with rfl | he
        · exact Or.inr (Or.inl ⟨value, rfl⟩)
        · exact ih e he

end Moves

end Fifo

end BoardSupport
