import BoardSupport.Proofs.Fifo.Handshake
import BoardSupport.Proofs.Program.Exchanges
import BoardSupport.Uart.Command

/-!
# What the UART's transfers exchange

For each transfer of the driver, on any hardware: what it has exchanged at any point
while it is under way, and what it has exchanged and gives its caller when it returns. It
keeps the handshake (`Fifo.Moves`), sends what it was asked to send in order
(`Transfer.outgoing`) and hands every byte that it takes to its caller
(`Transfer.Delivers`); while it is under way it has not sent more than that, nor taken
more than it can still hand over (`Transfer.Awaits`).

`behaves_performAll` says the same of calls one after another.
-/

namespace BoardSupport

open Program
open Fifo (Side Flag Status Moves)

/-! ## Flags -/

/-- The number of a flag's bit in a status word. -/
def Fifo.Flag.position : Flag → Nat
  | .full => 16
  | .empty => 17
  | .watermarkReached => 18
  | .overflow => 19

theorem Fifo.Flag.position_lt (f : Flag) : f.position < 32 := by
  cases f with
  | full | empty | watermarkReached | overflow => decide

theorem Fifo.Flag.mask_eq (f : Flag) : f.mask = (Field.bit f.position f.position_lt).mask := by
  cases f with
  | full | empty | watermarkReached | overflow => decide

theorem Fifo.Status.has_eq_bitAt (word : UInt32) (f : Flag) :
    (⟨word⟩ : Status).has f = bitAt word f.position := by
  rw [Status.has, f.mask_eq]
  exact Field.isSet_bit f.position_lt

namespace Uart

variable (u : Uart)

/-! ## Single bytes -/

theorem behaves_hasFlag (side : Side) (flag : Flag) :
    Behaves (u.hasFlag side flag) (· = []) fun v t =>
      ∃ word, t = [.read u.block (.status side) word] ∧ v = bitAt word flag.position := by
  have hread : Behaves (u.readWord (.status side)) (· = []) fun word t =>
      t = [.read u.block (.status side) word] := Behaves.request rfl fun _ => rfl
  have hstatus : Behaves (u.status side) (· = []) fun s t =>
      t = [.read u.block (.status side) s.word] := hread.map fun _ _ h => h
  exact hstatus.map fun s t h => ⟨s.word, h, Status.has_eq_bitAt s.word flag⟩

/-- The wait for a flag to go down ends with a reading that shows it. -/
theorem behaves_waitClear (side : Side) (flag : Flag) :
    Behaves (waitUntil (do return !(← u.hasFlag side flag))) (Moves u.block [] []) fun _ t =>
      ∃ polls word, t = polls ++ [.read u.block (.status side) word] ∧ Moves u.block [] [] polls ∧
        bitAt word flag.position = false := by
  have htest : Behaves (do return !(← u.hasFlag side flag)) (· = []) fun v t =>
      ∃ word, t = [.read u.block (.status side) word] ∧ v = !bitAt word flag.position := by
    refine (u.behaves_hasFlag side flag).map ?_
    rintro v t ⟨word, rfl, rfl⟩
    exact ⟨word, rfl, rfl⟩
  refine Behaves.waitUntil (I := Moves u.block [] []) (fun _ h => h) (fun t ht => ?_) .nil
  refine htest.mono ?_ ?_
  · rintro t' rfl
    exact ht.append .nil
  · rintro v t' ⟨word, rfl, rfl⟩
    cases hflag : bitAt word flag.position with
    | false => exact ⟨t, word, rfl, ht, hflag⟩
    | true => exact ht.append (.poll side word .nil)

theorem behaves_writeByte (byte : UInt8) :
    Behaves (u.writeByte byte) (Moves u.block [] []) fun _ => Moves u.block [byte] [] := by
  refine (u.behaves_waitClear .tx .full).bind (fun _ h => h) ?_
  rintro - - ⟨polls, word, rfl, hpolls, hroom⟩
  refine Behaves.request ?_ fun _ => ?_
  · rw [List.append_nil]
    exact hpolls.append (.poll .tx word .nil)
  · rw [List.append_assoc]
    exact hpolls.append (.write byte hroom .nil)

theorem behaves_tryReadByte :
    Behaves u.tryReadByte (Moves u.block [] []) fun v => Moves u.block [] v.toList := by
  refine (u.behaves_hasFlag .rx .empty).bind ?_ ?_
  · rintro t rfl
    exact .nil
  · rintro - - ⟨word, rfl, rfl⟩
    cases hempty : bitAt word 17 with
    | true =>
        have hempty' : bitAt word Flag.empty.position = true := hempty
        rw [hempty']
        exact Behaves.done (.poll .rx word .nil)
    | false =>
        have hempty' : bitAt word Flag.empty.position = false := hempty
        rw [hempty']
        have hread : Behaves (u.readWord .data)
            (fun t => Moves u.block [] [] (.read u.block (.status .rx) word :: t))
            (fun value t => t = [.read u.block .data value]) :=
          Behaves.request (.poll .rx word .nil) fun _ => rfl
        refine hread.map fun value t h => ?_
        subst h
        exact .read value hempty .nil

theorem behaves_readByte :
    Behaves u.readByte (Moves u.block [] []) fun byte => Moves u.block [] [byte] := by
  refine Behaves.poll (I := Moves u.block [] []) (fun _ h => h) (fun t ht => ?_) .nil
  refine u.behaves_tryReadByte.mono (fun t' h => ht.append h) fun v t' h => ?_
  cases v with
  | none => exact ht.append h
  | some byte => exact ht.append h

/-- What a bounded read gives for the bytes it took. -/
def Timed : Except DriverError UInt8 → List UInt8 → Prop
  | .ok byte, taken => taken = [byte]
  | .error e, taken => e = .timeout ∧ taken = []

theorem behaves_readByteWithin (maxPolls : Nat) :
    Behaves (u.readByteWithin maxPolls) (Moves u.block [] []) fun result t =>
      ∃ taken, Timed result taken ∧ Moves u.block [] taken t := by
  induction maxPolls with
  | zero => exact Behaves.done ⟨[], ⟨rfl, rfl⟩, .nil⟩
  | succ maxPolls ih =>
      refine u.behaves_tryReadByte.bind (fun _ h => h) fun v t ht => ?_
      cases v with
      | some byte =>
          refine Behaves.done ⟨[byte], rfl, ?_⟩
          rw [List.append_nil]
          exact ht
      | none =>
          refine ih.mono (fun t' h => ht.append h) ?_
          rintro result t' ⟨taken, hresult, h⟩
          exact ⟨taken, hresult, ht.append h⟩

/-! ## Blocks and lines -/

theorem behaves_writeBlock (bytes : List UInt8) :
    Behaves (u.writeBlock bytes) (fun t => ∃ sent, sent <+: bytes ∧ Moves u.block sent [] t)
      fun _ => Moves u.block bytes [] := by
  induction bytes with
  | nil => exact Behaves.done .nil
  | cons byte rest ih =>
      refine (u.behaves_writeByte byte).bind (fun t h => ⟨[], List.nil_prefix, h⟩) fun _ t ht => ?_
      refine ih.mono ?_ fun _ t' h => ht.append h
      rintro t' ⟨sent, hsent, h⟩
      exact ⟨byte :: sent, (List.prefix_cons_inj byte).mpr hsent, ht.append h⟩

theorem behaves_writeString (text : String) :
    Behaves (u.writeString text)
      (fun t => ∃ sent, sent <+: text.toUTF8.toList ++ [0] ∧ Moves u.block sent [] t)
      fun _ => Moves u.block (text.toUTF8.toList ++ [0]) [] := by
  refine (u.behaves_writeBlock _).bind ?_ fun _ t ht => ?_
  · rintro t ⟨sent, hsent, h⟩
    exact ⟨sent, hsent.trans (List.prefix_append _ _), h⟩
  · refine (u.behaves_writeByte 0).mono (fun t' h => ?_) fun _ t' h => ht.append h
    have hmoves := ht.append h
    rw [List.append_nil] at hmoves
    exact ⟨_, List.prefix_append _ _, hmoves⟩

theorem behaves_readBlock (count : Nat) :
    Behaves (u.readBlock count)
      (fun t => ∃ taken, taken.length < count ∧ Moves u.block [] taken t)
      fun bytes t => bytes.length = count ∧ Moves u.block [] bytes t := by
  induction count with
  | zero => exact Behaves.done ⟨rfl, .nil⟩
  | succ count ih =>
      refine u.behaves_readByte.bind (fun t h => ⟨[], Nat.succ_pos _, h⟩) fun byte t ht => ?_
      refine (ih.mono ?_ fun _ _ h => h).map ?_
      · rintro t' ⟨taken, hlen, h⟩
        exact ⟨byte :: taken, Nat.succ_lt_succ hlen, ht.append h⟩
      · rintro rest t' ⟨hlen, h⟩
        exact ⟨congrArg Nat.succ hlen, ht.append h⟩

/-- The line in a buffer for the bytes it took: all of them when none was a carriage
return, and otherwise those before it and a NUL, with the slots after it as they were. -/
def LineTaken (buffer taken : List UInt8) (count : Nat) (filled : List UInt8) : Prop :=
  count = taken.length ∧
    ((carriageReturn ∉ taken ∧ taken.length = buffer.length ∧ filled = taken) ∨
      ∃ text, carriageReturn ∉ text ∧ taken = text ++ [carriageReturn] ∧
        taken.length ≤ buffer.length ∧ filled = text ++ 0 :: buffer.drop taken.length)

theorem LineTaken.return_first (slot : UInt8) (rest : List UInt8) :
    LineTaken (slot :: rest) [carriageReturn] 1 (0 :: rest) :=
  ⟨rfl, Or.inr ⟨[], List.not_mem_nil, rfl, Nat.succ_le_succ (Nat.zero_le _), rfl⟩⟩

theorem LineTaken.cons {buffer taken filled : List UInt8} {count : Nat} {byte : UInt8}
    (slot : UInt8) (hbyte : byte ≠ carriageReturn) (h : LineTaken buffer taken count filled) :
    LineTaken (slot :: buffer) (byte :: taken) (count + 1) (byte :: filled) := by
  obtain ⟨rfl, ⟨hnone, hlen, rfl⟩ | ⟨text, hnone, rfl, hlen, rfl⟩⟩ := h
  · refine ⟨rfl, Or.inl ⟨?_, congrArg Nat.succ hlen, rfl⟩⟩
    exact List.not_mem_cons_of_ne_of_not_mem hbyte.symm hnone
  · refine ⟨rfl, Or.inr ⟨byte :: text, ?_, rfl, Nat.succ_le_succ hlen, rfl⟩⟩
    exact List.not_mem_cons_of_ne_of_not_mem hbyte.symm hnone

/-- A line takes what its bytes take, one after another. -/
theorem behaves_fillLine (during takes : List UInt8 → List Exchange → Prop) (hnil : takes [] [])
    (hduring : ∀ {a b t t'}, takes a t → during b t' → during (a ++ b) (t ++ t'))
    (htakes : ∀ {a b t t'}, takes a t → takes b t' → takes (a ++ b) (t ++ t'))
    {next : Program UInt8} (hnext : Behaves next (during []) fun byte => takes [byte])
    (buffer : List UInt8) :
    Behaves (fillLine next buffer)
      (fun t => ∃ taken, taken.length < buffer.length ∧ carriageReturn ∉ taken ∧ during taken t)
      fun line t => ∃ taken, LineTaken buffer taken line.1 line.2 ∧ takes taken t := by
  induction buffer with
  | nil => exact Behaves.done ⟨[], ⟨rfl, Or.inl ⟨List.not_mem_nil, rfl, rfl⟩⟩, hnil⟩
  | cons slot buffer ih =>
      refine hnext.bind
        (fun t h => ⟨[], Nat.succ_pos _, List.not_mem_nil, h⟩) fun byte t ht => ?_
      by_cases hbyte : byte = carriageReturn
      · rw [if_pos hbyte]
        subst hbyte
        refine Behaves.done ⟨[carriageReturn], .return_first slot buffer, ?_⟩
        rw [List.append_nil]
        exact ht
      · rw [if_neg hbyte]
        refine (ih.mono ?_ fun _ _ h => h).map ?_
        · rintro t' ⟨taken, hlen, hnone, h⟩
          exact ⟨byte :: taken, Nat.succ_lt_succ hlen,
            List.not_mem_cons_of_ne_of_not_mem (Ne.symm hbyte) hnone, hduring ht h⟩
        · rintro line t' ⟨taken, hline, h⟩
          exact ⟨byte :: taken, hline.cons slot hbyte, htakes ht h⟩

theorem behaves_readLine (buffer : List UInt8) :
    Behaves (u.readLine buffer)
      (fun t => ∃ taken, taken.length < buffer.length ∧ carriageReturn ∉ taken ∧
        Moves u.block [] taken t)
      fun line t => ∃ taken, LineTaken buffer taken line.1 line.2 ∧ Moves u.block [] taken t :=
  behaves_fillLine (Moves u.block []) (Moves u.block []) .nil Moves.append Moves.append
    u.behaves_readByte buffer

/-! ## Transfers -/

/-- The bytes that a transfer is asked to send; a string ends with a NUL. -/
def Transfer.outgoing : Transfer → List UInt8
  | .writeByte byte => [byte]
  | .writeBlock bytes => bytes
  | .writeString text => text.toUTF8.toList ++ [0]
  | .writeText text => text.toUTF8.toList
  | _ => []

/-- Answered so, the transfer has handed the bytes it took to its caller, each of them
once. -/
def Transfer.Delivers : Transfer → Answer → List UInt8 → Prop
  | .writeByte _, .done, taken => taken = []
  | .writeBlock _, .done, taken => taken = []
  | .writeString _, .done, taken => taken = []
  | .writeText _, .flag accepted, taken => accepted = true ∧ taken = []
  | .readByte, .byte byte, taken => taken = [byte]
  | .tryReadByte, .maybeByte byte, taken => taken = byte.toList
  | .readByteWithin _, .timedByte result, taken => Timed result taken
  | .readBlock count, .bytes bytes, taken => bytes.length = count ∧ taken = bytes
  | .readLine buffer, .line count filled, taken => LineTaken buffer taken count filled
  | _, _, _ => False

/-- Having taken these bytes, the transfer can still be under way: its caller has room
for one more. -/
def Transfer.Awaits : Transfer → List UInt8 → Prop
  | .readBlock count, taken => taken.length < count
  | .readLine buffer, taken => taken.length < buffer.length ∧ carriageReturn ∉ taken
  | _, taken => taken = []

/-- **A transfer keeps the handshake, sends what it was asked to and delivers what it
takes**, at every point on any hardware. -/
theorem behaves_move (transfer : Transfer) :
    Behaves (u.move transfer)
      (fun t => ∃ sent taken, sent <+: transfer.outgoing ∧ transfer.Awaits taken ∧
        Moves u.block sent taken t)
      fun answer t => ∃ taken, transfer.Delivers answer taken ∧
        Moves u.block transfer.outgoing taken t := by
  have hidle : ∀ bytes t, Moves u.block [] [] t → ∃ sent taken, sent <+: bytes ∧ taken = [] ∧
      Moves u.block sent taken t := fun bytes t h => ⟨[], [], List.nil_prefix, rfl, h⟩
  have hsending : ∀ bytes t, (∃ sent, sent <+: bytes ∧ Moves u.block sent [] t) →
      ∃ sent taken, sent <+: bytes ∧ taken = [] ∧ Moves u.block sent taken t :=
    fun bytes t ⟨sent, hsent, h⟩ => ⟨sent, [], hsent, rfl, h⟩
  cases transfer with
  | writeByte byte =>
      exact ((u.behaves_writeByte byte).map fun _ t h => ⟨[], rfl, h⟩).mono (hidle _)
        fun _ _ h => h
  | writeBlock bytes =>
      exact ((u.behaves_writeBlock bytes).map fun _ t h => ⟨[], rfl, h⟩).mono (hsending _)
        fun _ _ h => h
  | writeString text =>
      exact ((u.behaves_writeString text).map fun _ t h => ⟨[], rfl, h⟩).mono (hsending _)
        fun _ _ h => h
  | writeText text =>
      exact ((u.behaves_writeBlock _).map fun _ t h => ⟨[], ⟨rfl, rfl⟩, h⟩).mono (hsending _)
        fun _ _ h => h
  | readByte =>
      exact (u.behaves_readByte.map fun byte t h => ⟨[byte], rfl, h⟩).mono (hidle _) fun _ _ h => h
  | tryReadByte =>
      exact (u.behaves_tryReadByte.map fun byte t h => ⟨byte.toList, rfl, h⟩).mono (hidle _)
        fun _ _ h => h
  | readByteWithin maxPolls =>
      exact ((u.behaves_readByteWithin maxPolls).map fun _ t h => h).mono (hidle _) fun _ _ h => h
  | readBlock count =>
      refine ((u.behaves_readBlock count).map fun bytes t h => ⟨bytes, ⟨h.1, rfl⟩, h.2⟩).mono ?_
        fun _ _ h => h
      rintro t ⟨taken, hlen, h⟩
      exact ⟨[], taken, List.nil_prefix, hlen, h⟩
  | readLine buffer =>
      refine ((u.behaves_readLine buffer).map fun line t h => h).mono ?_ fun _ _ h => h
      rintro t ⟨taken, hlen, hnone, h⟩
      exact ⟨[], taken, List.nil_prefix, ⟨hlen, hnone⟩, h⟩

end Uart

end BoardSupport
