import BoardSupport.Proofs.Uart.Arrivals
import BoardSupport.Proofs.Uart.Handshake

/-!
# Lines from a stream of bytes

A stream is bytes that arrive one after another, each after a wait of its own
(`Arrival`). A line takes the bytes up to the first carriage return, or one for each slot
of its buffer; it makes the exchanges of these bytes and no others, so that the next call
finds the byte after them (`Uart.completes_readLine`).

Calls one after another therefore cut the stream into lines: `linesLength` is the number
of bytes that they take together, and `Uart.readLine_splits_stream` says what each of
them gets.
-/

namespace BoardSupport.Uart

open Program

/-- What is read while the bytes of a stream arrive and are taken. -/
def intake (b : Block) (stream : List Arrival) : List Exchange :=
  stream.flatMap (Arrival.exchanges b)

theorem intake_append (b : Block) (stream more : List Arrival) :
    intake b (stream ++ more) = intake b stream ++ intake b more := List.flatMap_append

variable {σ : Type} {p : Platform σ} {s t : σ}

/-- After some bytes of the stream the others arrive. -/
theorem exists_answered_take {b : Block} {stream : List Arrival}
    (h : Answered p (intake b stream) s t) (n : Nat) :
    ∃ mid, Answered p (intake b (stream.take n)) s mid ∧
      Answered p (intake b (stream.drop n)) mid t := by
  rw [← List.take_append_drop n stream, intake_append] at h
  exact Answered.append_iff.mp h

/-! ## The bytes of a line -/

section Taken

variable {buffer bytes taken filled : List UInt8} {count i : Nat} {byte : UInt8}

theorem LineTaken.eq_of_nil (h : LineTaken buffer [] count filled) :
    buffer = [] ∧ count = 0 ∧ filled = [] := by
  obtain ⟨rfl, ⟨-, hlen, rfl⟩ | ⟨text, -, htaken, -, -⟩⟩ := h
  · exact ⟨List.eq_nil_of_length_eq_zero hlen.symm, rfl, rfl⟩
  · exact absurd htaken.symm (List.append_ne_nil_of_right_ne_nil text (List.cons_ne_nil _ []))

/-- The first byte of a line ends it, or the rest of the line follows. -/
theorem LineTaken.of_cons (h : LineTaken buffer (byte :: taken) count filled) :
    ∃ slot rest, buffer = slot :: rest ∧
      ((byte = carriageReturn ∧ taken = [] ∧ count = 1 ∧ filled = 0 :: rest) ∨
        ∃ more later, byte ≠ carriageReturn ∧ count = more + 1 ∧ filled = byte :: later ∧
          LineTaken rest taken more later) := by
  obtain ⟨rfl, h⟩ := h
  cases buffer with
  | nil =>
      rcases h with ⟨-, hlen, -⟩ | ⟨text, -, -, hlen, -⟩
      · exact absurd hlen (Nat.succ_ne_zero _)
      · exact absurd hlen (Nat.not_succ_le_zero _)
  | cons slot rest =>
      refine ⟨slot, rest, rfl, ?_⟩
      rcases h with ⟨hnone, hlen, rfl⟩ | ⟨text, hnone, htaken, hlen, rfl⟩
      · have hbyte := List.ne_of_not_mem_cons hnone
        have hrest := List.not_mem_of_not_mem_cons hnone
        exact Or.inr ⟨_, taken, hbyte.symm, rfl, rfl, rfl, Or.inl ⟨hrest, Nat.succ.inj hlen, rfl⟩⟩
      · cases text with
        | nil =>
            obtain ⟨rfl, rfl⟩ := List.cons.inj htaken
            exact Or.inl ⟨rfl, rfl, rfl, rfl⟩
        | cons first text =>
            obtain ⟨rfl, rfl⟩ := List.cons.inj htaken
            have hbyte := List.ne_of_not_mem_cons hnone
            have hrest := List.not_mem_of_not_mem_cons hnone
            exact Or.inr ⟨_, _, hbyte.symm, rfl, rfl, rfl,
              Or.inr ⟨text, hrest, rfl, Nat.le_of_succ_le_succ hlen, rfl⟩⟩

/-- A carriage return that finds a slot ends the line. -/
theorem lineTaken_return (hi : i < buffer.length) (hreturn : bytes[i]? = some carriageReturn)
    (hnone : carriageReturn ∉ bytes.take i) :
    LineTaken buffer (bytes.take (i + 1)) (i + 1) (bytes.take i ++ 0 :: buffer.drop (i + 1)) := by
  have htaken : bytes.take (i + 1) = bytes.take i ++ [carriageReturn] := by
    rw [List.take_add_one, hreturn, Option.toList_some]
  have hlength : (bytes.take (i + 1)).length = i + 1 := by
    have hless := (List.getElem?_eq_some_iff.mp hreturn).1
    rw [List.length_take, Nat.min_eq_left hless]
  refine ⟨hlength.symm, Or.inr ⟨bytes.take i, hnone, htaken, ?_, ?_⟩⟩
  · rw [hlength]
    exact hi
  · rw [hlength]

/-- Without one the line fills its buffer. -/
theorem lineTaken_full (hlen : buffer.length ≤ bytes.length)
    (hnone : carriageReturn ∉ bytes.take buffer.length) :
    LineTaken buffer (bytes.take buffer.length) buffer.length (bytes.take buffer.length) := by
  have hlength : (bytes.take buffer.length).length = buffer.length := by
    rw [List.length_take, Nat.min_eq_left hlen]
  exact ⟨hlength.symm, Or.inl ⟨hnone, hlength, rfl⟩⟩

/-- The number of bytes that a line with so many slots takes: up to the first carriage
return, or one for each slot. It is more than there are where the line still waits. -/
def lineLength (slots : Nat) (bytes : List UInt8) : Nat :=
  min slots (bytes.idxOf carriageReturn + 1)

theorem lineLength_cons_return (slots : Nat) :
    lineLength (slots + 1) (carriageReturn :: bytes) = 1 := by
  rw [lineLength, List.idxOf_cons_self]
  exact Nat.min_eq_right (Nat.succ_le_succ (Nat.zero_le slots))

theorem lineLength_cons_of_ne (hbyte : byte ≠ carriageReturn) (slots : Nat) :
    lineLength (slots + 1) (byte :: bytes) = lineLength slots bytes + 1 := by
  rw [lineLength, List.idxOf_cons, beq_false_of_ne hbyte, cond_false]
  exact Nat.succ_min_succ slots (bytes.idxOf carriageReturn + 1)

/-- The bytes that lines with so many slots take one after another. -/
def linesLength : List Nat → List UInt8 → Nat
  | [], _ => 0
  | slots :: rest, bytes =>
    lineLength slots bytes + linesLength rest (bytes.drop (lineLength slots bytes))

/-- A line can be taken from any stream that has its bytes. -/
theorem exists_lineTaken (h : lineLength buffer.length bytes ≤ bytes.length) :
    ∃ filled, LineTaken buffer (bytes.take (lineLength buffer.length bytes))
      (lineLength buffer.length bytes) filled := by
  induction buffer generalizing bytes with
  | nil =>
      have hzero : lineLength ([] : List UInt8).length bytes = 0 := Nat.zero_min _
      rw [hzero]
      exact ⟨[], rfl, Or.inl ⟨List.not_mem_nil, rfl, rfl⟩⟩
  | cons slot buffer ih =>
      cases bytes with
      | nil => exact absurd h (by simp [lineLength])
      | cons byte bytes =>
          by_cases hbyte : byte = carriageReturn
          · subst hbyte
            rw [List.length_cons, lineLength_cons_return]
            exact ⟨_, .return_first slot buffer⟩
          · rw [List.length_cons, lineLength_cons_of_ne hbyte] at h ⊢
            obtain ⟨filled, hline⟩ := ih (Nat.le_of_succ_le_succ h)
            exact ⟨_, hline.cons slot hbyte⟩

end Taken

/-! ## One call -/

variable (u : Uart)

/-- A line takes the bytes of its stream, and nothing else is accessed. -/
theorem completes_readLine {taken : List Arrival} {buffer filled : List UInt8} {count : Nat}
    (hline : LineTaken buffer (taken.map Arrival.byte) count filled)
    (h : Answered p (intake u.block taken) s t) :
    Completes p (u.readLine buffer) s (intake u.block taken) (count, filled) t := by
  unfold readLine
  induction taken generalizing s buffer count filled with
  | nil =>
      obtain ⟨rfl, rfl, rfl⟩ := hline.eq_of_nil
      cases h
      exact completes_done.mpr ⟨rfl, rfl, rfl⟩
  | cons a taken ih =>
      obtain ⟨mid, hfirst, hrest⟩ := Answered.append_iff.mp h
      have hbyte := u.completes_readByte a hfirst
      obtain ⟨slot, rest, rfl, ⟨hend, hnone, rfl, rfl⟩ | ⟨more, later, hne, rfl, rfl, hlater⟩⟩ :=
        hline.of_cons
      · obtain rfl := List.map_eq_nil_iff.mp hnone
        cases hrest
        refine hbyte.bind ?_
        rw [if_pos hend]
        exact completes_done.mpr ⟨rfl, rfl, rfl⟩
      · refine hbyte.bind ?_
        rw [if_neg hne]
        exact (ih hlater hrest).map fun line => (line.1 + 1, a.byte :: line.2)

/-- A line that the first bytes of the stream make up takes these, and leaves the others. -/
theorem exists_completes_readLine {stream : List Arrival} {buffer filled : List UInt8}
    {n count : Nat} (hline : LineTaken buffer ((stream.map Arrival.byte).take n) count filled)
    (h : Answered p (intake u.block stream) s t) :
    ∃ mid, Completes p (u.readLine buffer) s (intake u.block (stream.take n)) (count, filled) mid ∧
      Answered p (intake u.block (stream.drop n)) mid t := by
  obtain ⟨mid, hfirst, hrest⟩ := exists_answered_take h n
  rw [← List.map_take] at hline
  exact ⟨mid, u.completes_readLine hline hfirst, hrest⟩

/-! ## Calls one after another -/

/-- Calls take consecutive lines of the stream. -/
theorem completes_readLines (buffers : List (List UInt8)) {stream : List Arrival} {taken : Nat}
    (htaken : linesLength (buffers.map List.length) (stream.map Arrival.byte) = taken)
    (hlen : taken ≤ (stream.map Arrival.byte).length) (h : Answered p (intake u.block stream) s t) :
    ∃ answers mid,
      Completes p (u.performAll (buffers.map fun buffer => .transfer (.readLine buffer))) s
        (intake u.block (stream.take taken)) answers mid ∧
      Answered p (intake u.block (stream.drop taken)) mid t ∧
      DeliversAll (buffers.map .readLine) answers ((stream.map Arrival.byte).take taken) := by
  induction buffers generalizing s stream taken with
  | nil =>
      subst htaken
      exact ⟨[], s, completes_done.mpr ⟨rfl, rfl, rfl⟩, h, .nil⟩
  | cons buffer buffers ih =>
      -- The first line takes the first bytes, and the other calls go on after them.
      let first := lineLength buffer.length (stream.map Arrival.byte)
      let more := linesLength (buffers.map List.length) ((stream.map Arrival.byte).drop first)
      have hsum : first + more = taken := htaken
      have hfits : first ≤ (stream.map Arrival.byte).length := by omega
      have hmore : more ≤ ((stream.drop first).map Arrival.byte).length := by
        rw [List.map_drop, List.length_drop]
        omega
      obtain ⟨filled, hfilled⟩ := exists_lineTaken hfits
      obtain ⟨mid, hcall, hrest⟩ := u.exists_completes_readLine hfilled h
      obtain ⟨answers, last, hcalls, hleft, hdelivers⟩ :=
        ih (congrArg _ List.map_drop) hmore hrest
      subst hsum
      refine ⟨.line first filled :: answers, last, ?_, ?_, ?_⟩
      · rw [List.take_add, intake_append]
        have hanswer := hcall.map fun line => Answer.line line.1 line.2
        exact hanswer.bind (hcalls.map fun answers => .line first filled :: answers)
      · rw [← List.drop_drop]
        exact hleft
      · rw [List.take_add, ← List.map_drop]
        exact .cons hfilled hdelivers

/-- **Lines cut the stream at the first carriage return or where the buffer ends.** On any
platform from which a stream of bytes arrives, however long each of them is waited for: a
carriage return that finds a slot ends the line, which is the bytes before it, a NUL in its
place and the other slots as they were; without one the line is as many bytes as there are
slots. The bytes of the line are taken, nothing else is accessed, and the others still
arrive after it. So calls one after another take consecutive lines: the bytes that they
take are the first ones of the stream, each of them in one line. -/
theorem readLine_splits_stream (p : Platform σ) {stream : List Arrival}
    (h : Answered p (intake u.block stream) s t) :
    let bytes := stream.map Arrival.byte
    (∀ (buffer : List UInt8) (i : Nat), i < buffer.length → bytes[i]? = some carriageReturn →
      carriageReturn ∉ bytes.take i → ∃ mid,
        Completes p (u.readLine buffer) s (intake u.block (stream.take (i + 1)))
          (i + 1, bytes.take i ++ 0 :: buffer.drop (i + 1)) mid ∧
        Answered p (intake u.block (stream.drop (i + 1))) mid t) ∧
    (∀ buffer : List UInt8, buffer.length ≤ bytes.length →
      carriageReturn ∉ bytes.take buffer.length → ∃ mid,
        Completes p (u.readLine buffer) s (intake u.block (stream.take buffer.length))
          (buffer.length, bytes.take buffer.length) mid ∧
        Answered p (intake u.block (stream.drop buffer.length)) mid t) ∧
    ∀ buffers : List (List UInt8),
      let taken := linesLength (buffers.map List.length) bytes
      taken ≤ bytes.length → ∃ answers mid,
        Completes p (u.performAll (buffers.map fun buffer => .transfer (.readLine buffer))) s
          (intake u.block (stream.take taken)) answers mid ∧
        Answered p (intake u.block (stream.drop taken)) mid t ∧
        DeliversAll (buffers.map .readLine) answers (bytes.take taken) := by
  intro bytes
  refine ⟨?_, ?_, ?_⟩
  · intro buffer i hi hreturn hnone
    exact u.exists_completes_readLine (lineTaken_return hi hreturn hnone) h
  · intro buffer hlen hnone
    exact u.exists_completes_readLine (lineTaken_full hlen hnone) h
  · intro buffers taken hlen
    exact u.completes_readLines buffers rfl hlen h

/-- Three bytes; the second one is a carriage return, and the first and the third are
waited for. -/
def slowStream : List Arrival :=
  [⟨.cons 0x20000 rfl .nil, 0, rfl, 0x168⟩, ⟨.nil, 0, rfl, 0x10D⟩,
    ⟨.cons 0x20000 rfl .nil, 0, rfl, 0x21⟩]

/-- A UART where this stream arrives. -/
def slowSender : Machine ScriptModel :=
  { device := ⟨[(0x1C, [0x20000, 0, 0, 0x20000, 0]), (0x00, [0x168, 0x10D, 0x21])]⟩ }

/-- A line in a buffer that is longer, one that is too short and none, and two lines in
turn. -/
theorem readLine_splits_stream_slow :
    let u : Uart := ⟨MemoryMap.full.uart0⟩
    let p := Machine.platform ScriptModel.bus
    (∃ trace left, Completes p (u.readLine [1, 2, 3, 4]) slowSender trace
        (2, [0x68, 0, 3, 4]) left ∧ trace.length = 5) ∧
    (∃ trace left, Completes p (u.readLine [1]) slowSender trace (1, [0x68]) left ∧
      trace.length = 3) ∧
    (∃ left, Completes p (u.readLine []) slowSender [] (0, []) left) ∧
    ∃ trace answers left,
      Completes p (u.performAll [.transfer (.readLine [1, 2, 3, 4]), .transfer (.readLine [9])])
        slowSender trace answers left ∧
      DeliversAll [.readLine [1, 2, 3, 4], .readLine [9]] answers [0x68, 0x0D, 0x21] := by
  intro u p
  obtain ⟨left, harrive⟩ : ∃ left, Answered p (intake u.block slowStream) slowSender left :=
    ⟨_, .cons rfl (.cons rfl (.cons rfl (.cons rfl (.cons rfl (.cons rfl (.cons rfl
      (.cons rfl (.nil _))))))))⟩
  obtain ⟨hreturn, hfull, hlines⟩ := u.readLine_splits_stream p harrive
  refine ⟨?_, ?_, ?_, ?_⟩
  · obtain ⟨mid, hline, -⟩ := hreturn [1, 2, 3, 4] 1 (by decide) rfl (by decide)
    exact ⟨_, mid, hline, rfl⟩
  · obtain ⟨mid, hline, -⟩ := hfull [1] (by decide) (by decide)
    exact ⟨_, mid, hline, rfl⟩
  · obtain ⟨mid, hline, -⟩ := hfull [] (by decide) (by decide)
    exact ⟨mid, hline⟩
  · obtain ⟨answers, mid, hcalls, -, hdelivers⟩ := hlines [[1, 2, 3, 4], [9]] (by decide)
    exact ⟨_, answers, mid, hcalls, hdelivers⟩

end BoardSupport.Uart
