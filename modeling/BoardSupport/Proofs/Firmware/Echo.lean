import BoardSupport.Firmware.Image
import BoardSupport.Proofs.Firmware.Traffic
import BoardSupport.Proofs.Uart.Lines

/-!
# The echo of a line

The main loop takes a line of at most 64 bytes and sends it back. A line does not say
whether a carriage return ended it; the loop takes a NUL at its end for the one that stands
for the carriage return. So what is echoed is the line without its carriage return, except
for a line that fills the buffer with a NUL at its end, which loses that NUL
(`lineText_eq_iff`).

A turn of the loop takes one line or nothing, and sends the uptime, if it has changed, and
then the echo (`yields_serve`); every path of the loop is such turns and the beginning of one
more.
-/

namespace BoardSupport

open Program

/-! ## The bytes of a text -/

theorem toList_loop (bytes : ByteArray) (i : Nat) (acc : List UInt8) :
    ByteArray.toList.loop bytes i acc = acc.reverse ++ bytes.data.toList.drop i := by
  induction i, acc using ByteArray.toList.loop.induct bytes with
  | case1 i acc hi ih =>
      have hlt : i < bytes.data.toList.length := hi
      have hget : bytes.get! i = bytes.data.toList[i] := getElem!_pos bytes.data i hi
      rw [ByteArray.toList.loop, if_pos hi, ih, List.drop_eq_getElem_cons hlt, hget,
        List.reverse_cons, List.append_assoc, List.singleton_append]
  | case2 i acc hi =>
      have hle : bytes.data.toList.length ≤ i := Nat.le_of_not_lt hi
      rw [ByteArray.toList.loop, if_neg hi, List.drop_of_length_le hle, List.append_nil]

theorem toList_eq_data (bytes : ByteArray) : bytes.toList = bytes.data.toList := by
  rw [ByteArray.toList, toList_loop]
  rfl

theorem toUTF8_toList_append (s t : String) :
    (s ++ t).toUTF8.toList = s.toUTF8.toList ++ t.toUTF8.toList := by
  have happend : (s ++ t).toUTF8 = s.toUTF8 ++ t.toUTF8 := String.toByteArray_append
  rw [toList_eq_data, toList_eq_data, toList_eq_data, happend, ByteArray.data_append,
    Array.toList_append]

namespace Firmware

open Fifo (Moves)

/-! ## The text of a line -/

/-- The bytes of a line without the carriage return that ended it. -/
def withoutReturn (taken : List UInt8) : List UInt8 :=
  if taken.getLast? = some Uart.carriageReturn then taken.dropLast else taken

/-- The line filled the buffer with a NUL at its end. -/
def EndsInNul (taken : List UInt8) : Prop := taken.length = 64 ∧ taken.getLast? = some 0

section Text

variable {taken buffer : List UInt8} {count : Nat}

theorem withoutReturn_concat (text : List UInt8) :
    withoutReturn (text ++ [Uart.carriageReturn]) = text := by
  rw [withoutReturn, List.getLast?_concat, if_pos rfl, List.dropLast_concat]

theorem withoutReturn_of_not_mem (h : Uart.carriageReturn ∉ taken) : withoutReturn taken = taken :=
  if_neg fun hlast => h (List.mem_of_getLast? hlast)

theorem lineText_concat {text : List UInt8} (h : buffer.take count = text ++ [0]) :
    lineText count buffer = text := by
  rw [lineText, h, List.getLast?_concat, if_pos rfl, List.dropLast_concat]

theorem lineText_of_ne (h : (buffer.take count).getLast? ≠ some 0) :
    lineText count buffer = buffer.take count := if_neg h

/-- Of a full buffer, only a NUL at its end is lost. -/
theorem lineText_full_iff (h : buffer.length = 64) :
    (lineText buffer.length buffer = buffer ↔ ¬ EndsInNul buffer) ∧
      (EndsInNul buffer → buffer = lineText buffer.length buffer ++ [0]) := by
  have hline : buffer.take buffer.length = buffer := List.take_length
  by_cases hlast : buffer.getLast? = some 0
  · obtain ⟨text, rfl⟩ := List.getLast?_eq_some_iff.mp hlast
    rw [lineText_concat hline]
    have hshorter : text ≠ text ++ [0] := fun heq => by simpa using congrArg List.length heq
    exact ⟨⟨fun heq => absurd heq hshorter, fun hnul => absurd ⟨h, hlast⟩ hnul⟩, fun _ => rfl⟩
  · rw [lineText_of_ne (by rwa [hline]), hline]
    exact ⟨⟨fun _ hnul => hlast hnul.2, fun _ => rfl⟩, fun hnul => absurd hnul.2 hlast⟩

/-- The NUL in place of the carriage return is left out. -/
theorem lineText_returned (text rest : List UInt8) :
    lineText (text ++ [Uart.carriageReturn]).length (text ++ 0 :: rest) = text := by
  refine lineText_concat ?_
  rw [List.length_append, List.length_singleton, List.take_length_add_append]
  rfl

/-- Nothing is lost of a line but its carriage return, unless it filled the buffer with a
NUL at its end; then that NUL is lost. -/
theorem lineText_eq_iff (h : Uart.LineTaken emptyLine taken count buffer) :
    (lineText count buffer = withoutReturn taken ↔ ¬ EndsInNul taken) ∧
      (EndsInNul taken → taken = lineText count buffer ++ [0]) := by
  obtain ⟨rfl, ⟨hnone, hfull, rfl⟩ | ⟨text, -, rfl, -, rfl⟩⟩ := h
  · rw [withoutReturn_of_not_mem hnone]
    exact lineText_full_iff hfull
  · have hnul : ¬ EndsInNul (text ++ [Uart.carriageReturn]) := by
      rintro ⟨-, hlast⟩
      rw [List.getLast?_concat] at hlast
      exact absurd hlast (by decide)
    rw [lineText_returned, withoutReturn_concat]
    exact ⟨⟨fun _ => hnul, fun _ => rfl⟩, fun h => absurd h hnul⟩

end Text

/-! ## The parts of a turn -/

/-- Takes a line and sends it back. -/
def echoLine : Program Unit := do
  let (count, buffer) ← readLine emptyLine
  printLine (echo (lineText count buffer))

/-- Shows the seconds when they have changed. -/
def showUptime (shown s : UInt64) : Program Unit :=
  if s ≠ shown then do
    pins.write s.toUInt32
    printLine ("uptime " ++ toString s.toNat ++ " s")
  else return ()

/-- Echoes a line if there is input. -/
def answer (pending : Bool) : Program Unit := if pending then echoLine else return ()

/-- A turn of the loop, part by part. -/
theorem serve_eq (shown : UInt64) : serve shown = uptimeSeconds.bind fun s =>
    (showUptime shown s).bind fun _ => inputPending.bind fun pending =>
      (answer pending).bind fun _ => (waitForInterrupt).bind fun _ => .done s := by
  refine congrArg _ (funext fun s => ?_)
  have hanswer : ∀ pending : Bool, (if pending = true then do
        let line ← readLine emptyLine
        printLine (echo (lineText line.1 line.2))
        waitForInterrupt
        return s
      else do
        waitForInterrupt
        return s) = (answer pending).bind fun _ => (waitForInterrupt).bind fun _ => .done s := by
    intro pending
    cases pending with
    | true => exact (bind_assoc _ _ _).symm
    | false => rfl
  have hrest := congrArg inputPending.bind (funext hanswer)
  by_cases hs : s ≠ shown
  · rw [if_pos hs, showUptime, if_pos hs]
    refine Eq.trans ?_ (bind_assoc (pins.write s.toUInt32) _ _).symm
    exact congrArg _ (funext fun _ => congrArg _ (funext fun _ => hrest))
  · rw [if_neg hs, showUptime, if_neg hs]
    exact hrest

/-! ## A turn -/

/-- The seconds are worked out from the handler alone, and it may be that they cannot. -/
theorem yields_uptimeSeconds : Yields uptimeSeconds fun _ => Talks [] [] := by
  have hslot : Asks Request.Idle (request .handlerSlot) := Asks.request (idle_of_not_access rfl)
  refine Yields.bind_idle (yields_section (Yields.bind_idle (yields_of_idle hslot) fun slot => ?_))
    fun result => ?_
  · cases slot with
    | none => exact .done talks_nil
    | some uptime =>
        refine (Yields.ofExcept _).mono ?_
        rintro _ _ rfl
        exact talks_nil
  · cases result with
    | ok s => exact .done talks_nil
    | error e => exact .done talks_nil

theorem idle_inputPending : Asks Request.Idle inputPending := by
  have hflag : Asks Request.Idle (console.hasFlag .rx .empty) := by
    refine (console.asks_hasFlag .rx .empty).mono ?_
    rintro _ rfl
    exact ⟨by decide, nofun⟩
  have hsection := Interrupts.asks_section (idle_of_not_access rfl)
    (fun _ => idle_of_not_access rfl) (hflag.bind fun empty => .done !empty)
  refine Asks.bind (hsection.bind fun result => ?_) fun _ => .done _
  cases result with
  | ok v => exact .done _
  | error e => exact .done _

/-- The line that shows the seconds, when they have changed. -/
def uptimeLine (shown s : UInt64) : List UInt8 :=
  if s ≠ shown then
    ("uptime " ++ toString s.toNat ++ " s").toUTF8.toList ++ lineEnd.toUTF8.toList
  else []

theorem yields_showUptime (shown s : UInt64) :
    Yields (showUptime shown s) fun _ => TalksUnlessRefused [] (uptimeLine shown s) := by
  have hapart : pins.block ≠ console.block := by decide
  have hpins : Asks Request.Idle (pins.write s.toUInt32) :=
    Asks.request ⟨nofun, fun value hstore => hapart (Request.store.inj hstore).1⟩
  by_cases hs : s ≠ shown
  · rw [showUptime, if_pos hs, uptimeLine, if_pos hs]
    refine (yields_of_idle hpins).bind fun _ t ht => ?_
    refine (Yields.of_behaves (behaves_printLine_talks _)).mono fun _ t' ht' => ?_
    exact TalksUnlessRefused.append (fun _ => ht) ht'
  · rw [showUptime, if_neg hs, uptimeLine, if_neg hs]
    exact .done talksUnlessRefused_nil

/-- What is sent back for a line with this text. -/
def reply (text : List UInt8) : List UInt8 :=
  (echo text).toUTF8.toList ++ lineEnd.toUTF8.toList

theorem reply_of_valid {text : List UInt8} (h : ByteArray.IsValidUTF8 ⟨text.toArray⟩) :
    reply text = [0x3E, 0x20] ++ text ++ [0x0D, 0x0A] := by
  have hdecoded : String.fromUTF8? ⟨text.toArray⟩ = some (String.fromUTF8 ⟨text.toArray⟩ h) :=
    dif_pos h
  have hbytes : (String.fromUTF8 ⟨text.toArray⟩ h).toUTF8.toList = text := toList_eq_data _
  have hprompt : "> ".toUTF8.toList = [0x3E, 0x20] := by decide +kernel
  have hend : lineEnd.toUTF8.toList = [0x0D, 0x0A] := by decide +kernel
  rw [reply, echo, hdecoded, Option.getD_some, toUTF8_toList_append, hbytes, hprompt, hend]

/-- The line had this text and was answered with these bytes. -/
structure Echoed (taken text sent : List UInt8) : Prop where
  exact_iff : text = withoutReturn taken ↔ ¬ EndsInNul taken
  lost : EndsInNul taken → taken = text ++ [0]
  sent : ByteArray.IsValidUTF8 ⟨text.toArray⟩ → sent = [0x3E, 0x20] ++ text ++ [0x0D, 0x0A]

theorem echoed_of_lineTaken {taken buffer : List UInt8} {count : Nat}
    (h : Uart.LineTaken emptyLine taken count buffer) :
    Echoed taken (lineText count buffer) (reply (lineText count buffer)) :=
  ⟨(lineText_eq_iff h).1, (lineText_eq_iff h).2, reply_of_valid⟩

/-- Nothing was taken and nothing is sent, or a line was taken and is sent back. -/
def AnswerTo (taken sent : List UInt8) : Prop :=
  (taken = [] ∧ sent = []) ∨ ∃ count buffer, Uart.LineTaken emptyLine taken count buffer ∧
    Echoed taken (lineText count buffer) sent

/-- A line is taken, and then it is sent back. -/
theorem yields_echoLine :
    Yields echoLine fun _ t => ∃ taken sent, AnswerTo taken sent ∧
      TalksUnlessRefused taken sent t := by
  refine (Yields.of_behaves (behaves_readLine_talks emptyLine)).bind ?_
  rintro ⟨count, buffer⟩ t ⟨taken, hline, ht⟩
  refine (Yields.of_behaves (behaves_printLine_talks _)).mono fun _ t' ht' => ?_
  have htalks := ht.append ht'
  rw [List.append_nil, List.nil_append] at htalks
  exact ⟨taken, _, Or.inr ⟨count, buffer, hline, echoed_of_lineTaken hline⟩, htalks⟩

theorem yields_answer (pending : Bool) :
    Yields (answer pending) fun _ t => ∃ taken sent, AnswerTo taken sent ∧
      TalksUnlessRefused taken sent t := by
  cases pending with
  | true => exact yields_echoLine
  | false => exact .done ⟨[], [], Or.inl ⟨rfl, rfl⟩, talksUnlessRefused_nil⟩

/-- On the console a turn shows the seconds, if they have changed, and answers what it has
taken. -/
def Serves (shown s : UInt64) (turn : List Exchange) : Prop :=
  ∃ sent, bytesSent turn = uptimeLine shown s ++ sent ∧ AnswerTo (bytesTaken turn) sent

theorem yields_serve (shown : UInt64) :
    Yields (serve shown) fun s turn => ¬ MaskRefused turn → Serves shown s turn := by
  have hsleep : Yields (waitForInterrupt) fun _ => Talks [] [] :=
    yields_of_idle (Asks.request (idle_of_not_access rfl))
  rw [serve_eq]
  refine yields_uptimeSeconds.bind fun s t ht => ?_
  refine (yields_showUptime shown s).bind fun _ t₁ ht₁ => ?_
  refine (yields_of_idle idle_inputPending).bind fun pending t₂ ht₂ => ?_
  refine (yields_answer pending).bind ?_
  rintro - t₃ ⟨taken, sent, hanswer, ht₃⟩
  refine hsleep.map fun _ t₄ ht₄ hnone => ?_
  have htalks := TalksUnlessRefused.append (fun _ => ht) (ht₁.append
    (TalksUnlessRefused.append (fun _ => ht₂) (ht₃.append fun _ => ht₄))) hnone
  simp only [List.nil_append, List.append_nil] at htalks
  refine ⟨sent, htalks.sent, ?_⟩
  rw [htalks.taken]
  exact hanswer

/-! ## On the board -/

section Board

variable {m : Machine UartModel} {byte : UInt8} {taken rest buffer filled : List UInt8}
  {count : Nat}

/-- The machine with other bytes waiting at its console. -/
def withInput (m : Machine UartModel) (rx : List UInt8) : Machine UartModel :=
  { m with device := { m.device with rx } }

theorem returns_readConsoleByte (h : m.Unrefused) (hempty : bitAt m.device.rxStored 17 = false) :
    Returns (Machine.platform UartModel.bus) readConsoleByte (withInput m (byte :: rest)) byte
      (withInput m rest) := by
  have hpoll : Returns (Machine.platform UartModel.bus) (withConsole fun uart => uart.tryReadByte)
      (withInput m (byte :: rest)) (some (some byte)) (withInput m rest) :=
    returns_withConsole h
      (console.returns_tryReadByte (m := (withInput m (byte :: rest)).masked) hempty rfl)
  exact Returns.poll_leave (hpoll.map Option.join)

/-- A line that waits at the console is taken. -/
theorem returns_readLine (h : m.Unrefused) (hempty : bitAt m.device.rxStored 17 = false)
    (hline : Uart.LineTaken buffer taken count filled) :
    Returns (Machine.platform UartModel.bus) (readLine buffer) (withInput m (taken ++ rest))
      (count, filled) (withInput m rest) := by
  unfold readLine
  induction taken generalizing buffer count filled with
  | nil =>
      obtain ⟨rfl, rfl, rfl⟩ := hline.eq_of_nil
      exact returns_done.mpr ⟨rfl, rfl⟩
  | cons byte taken ih =>
      have hbyte : Returns (Machine.platform UartModel.bus) readConsoleByte
          (withInput m (byte :: taken ++ rest)) byte (withInput m (taken ++ rest)) :=
        returns_readConsoleByte h hempty
      obtain ⟨slot, left, rfl, ⟨hend, hnone, rfl, rfl⟩ | ⟨more, later, hne, rfl, rfl, hlater⟩⟩ :=
        hline.of_cons
      · subst hnone
        refine hbyte.bind ?_
        rw [if_pos hend]
        exact returns_done.mpr ⟨rfl, rfl⟩
      · refine hbyte.bind ?_
        rw [if_neg hne]
        exact (ih hlater).map fun line => (line.1 + 1, byte :: line.2)

/-- A text and a line end are sent to a console that drains. -/
theorem returns_printLine_uart (h : m.Unrefused) (hd : m.device.Drains) (text : String) :
    ∃ d, Returns (Machine.platform UartModel.bus) (printLine text) m () { m with device := d } ∧
      d.sent.toList
        = m.device.sent.toList ++ (text.toUTF8.toList ++ lineEnd.toUTF8.toList) := by
  let after : Machine UartModel := { m with device := m.device.written text.toUTF8.toList }
  have htext : Returns (Machine.platform UartModel.bus) (print text) m () after :=
    returns_print_uart h hd text
  have hend := returns_print_uart (m := after) h (hd.written _) lineEnd
  refine ⟨_, htext.bind hend, ?_⟩
  show ((m.device.written text.toUTF8.toList).written lineEnd.toUTF8.toList).sent.toList = _
  rw [UartModel.written_eq, UartModel.written_eq]
  simp

theorem asks_echoLine : Asks (Request.Within console.block) echoLine :=
  (asks_readLine emptyLine).bind fun line => asks_printLine (echo (lineText line.1 line.2))

/-- A line that waits at the console is taken and sent back. -/
theorem exists_returns_echoLine (h : m.Unrefused) (hd : m.device.Drains)
    (hempty : bitAt m.device.rxStored 17 = false) (hrx : m.device.rx = taken ++ rest)
    (hline : Uart.LineTaken emptyLine taken count filled) :
    ∃ d, Returns (Machine.platform UartModel.bus) echoLine m () { m with device := d } ∧
      d.sent.toList = m.device.sent.toList ++ reply (lineText count filled) := by
  have hwaits : withInput m (taken ++ rest) = m := by rw [← hrx]; rfl
  have hread : Returns (Machine.platform UartModel.bus) (readLine emptyLine)
      (withInput m (taken ++ rest)) (count, filled) (withInput m rest) :=
    returns_readLine h hempty hline
  rw [hwaits] at hread
  obtain ⟨d, hprint, hsent⟩ := returns_printLine_uart (m := withInput m rest) h hd
    (echo (lineText count filled))
  exact ⟨d, hread.bind hprint, hsent⟩

end Board

/-- **The echo loses the last NUL of a full line, and no other byte.** A turn of the main
loop, whatever answers it, takes nothing from the console or one line; it sends the uptime,
if that has changed, and then the prompt, the text of the line, if it is UTF-8, and a line
end. The text is the line without its carriage return exactly if the line did not fill the
buffer with a NUL at its end, and otherwise it is the line without that NUL; so it is also
where the turn does not come to its end. Every path of the loop is such turns and the
beginning of one more. A line that waits at the console of a board that can print is taken
and answered so. -/
theorem echo_loses_only_last_nul (shown : UInt64) (m : Machine Board) :
    (∀ n s turn, Path n (serve shown) turn (.done s) → ¬ MaskRefused turn →
      Serves shown s turn) ∧
    (∀ n line trace, Path n (readLine emptyLine) trace (.done line) → ¬ MaskRefused trace →
      Echoed (bytesTaken trace) (lineText line.1 line.2) (reply (lineText line.1 line.2))) ∧
    (∀ n trace y, Path n (forever shown serve) trace y →
      ∃ turns shown' current i z, trace = turns.flatten ++ current ∧
        Rounds serve shown turns shown' ∧ Path i (serve shown') current z) ∧
    ∀ taken rest count buffer, Prints m → bitAt m.device.uart.rxStored 17 = false →
      m.device.uart.rx = taken ++ rest → Uart.LineTaken emptyLine taken count buffer →
      ∃ uart sent, Returns (Machine.platform Board.bus) echoLine m ()
          { m with device := { m.device with uart } } ∧
        uart.sent.toList = m.device.uart.sent.toList ++ sent ∧
        Echoed taken (lineText count buffer) sent := by
  refine ⟨?_, ?_, ?_, ?_⟩
  · exact fun n s turn hturn hnone => yields_serve shown n turn s hturn hnone
  · intro n line trace hline hnone
    obtain ⟨taken, htaken, htalks⟩ := Yields.of_behaves (behaves_readLine_talks emptyLine) n
      trace line hline
    rw [(htalks hnone).taken]
    exact echoed_of_lineTaken htaken
  · exact fun n trace y hpath => exists_rounds_of_forever hpath
  · intro taken rest count buffer hm hempty hrx hline
    let part : Machine UartModel := { m with device := m.device.uart }
    obtain ⟨uart, hreturns, hsent⟩ := exists_returns_echoLine (m := part) hm.unrefused hm.drains
      hempty hrx hline
    have hboard := (Board.isPart_uart m.device).returns asks_echoLine hreturns
    exact ⟨uart, _, hboard, hsent, echoed_of_lineTaken hline⟩

/-- A board where the word ok waits as a line, and a byte after it. -/
def waitingBoard : Machine Board where
  device := {
    uart := { loopback := false, rx := [0x6F, 0x6B, 0x0D, 0x21] }
    trng := { simulated := false } }

/-- Masking interrupts where they are masked. -/
def maskedAgain : List Exchange :=
  [⟨.readCsr .mstatus, (0 : UInt32)⟩,
    ⟨.updateCsr .mstatus (.clearBits Csr.interruptEnable), .ok ()⟩]

/-- A text of two bytes on a console with room. -/
theorem exists_path_print {text : String} {a b : UInt8} (h : text.toUTF8.toList = [a, b]) :
    ∃ n, Path n (print text) (maskedAgain ++
      [.read console.block (.status .tx) 0, .wrote console.block .data a.toUInt32,
        .read console.block (.status .tx) 0, .wrote console.block .data b.toUInt32]) (.done ()) := by
  have hwrite : console.writeText text = console.writeBlock [a, b] :=
    congrArg console.writeBlock h
  rw [print, withConsole, hwrite]
  exact ⟨8, .ask _ (.ask _ (.loop (.ask _ (.ask _ (.loop (.ask _ (.ask _ (.refl _))))))))⟩

/-- The exchanges of a poll that takes a carriage return. -/
def takesReturn : List Exchange :=
  maskedAgain ++ [.read console.block (.status .rx) 1, .read console.block .data 0x0D]

theorem path_readLine : Path 5 (readLine emptyLine) takesReturn (.done (1, emptyLine)) :=
  .loop (.ask _ (.ask _ (.ask _ (.ask _ (.refl _)))))

/-- A turn that finds an empty line. -/
theorem exists_path_serve : ∃ n turn, Path n (serve 0) turn (.done 0) ∧ ¬ MaskRefused turn ∧
    bytesTaken turn = [0x0D] ∧ bytesSent turn = [0x3E, 0x20, 0x0D, 0x0A] := by
  have hseconds : Path 3 uptimeSeconds (maskedAgain ++ [⟨.handlerSlot, none⟩]) (.done 0) :=
    .ask _ (.ask _ (.ask _ (.refl _)))
  have hpending : Path 3 inputPending (maskedAgain ++ [.read console.block (.status .rx) 1])
      (.done true) := .ask _ (.ask _ (.ask _ (.refl _)))
  have hecho : (echo (lineText 1 emptyLine)).toUTF8.toList = [0x3E, 0x20] := by decide +kernel
  have hend : lineEnd.toUTF8.toList = [0x0D, 0x0A] := by decide +kernel
  obtain ⟨i, htext⟩ := exists_path_print hecho
  obtain ⟨j, hline⟩ := exists_path_print hend
  have hanswer := path_readLine.bind (f := fun line => printLine (echo (lineText line.1 line.2)))
    (htext.bind hline)
  have hsleep : Path 1 ((waitForInterrupt).bind fun _ => Program.done (0 : UInt64))
      [⟨.waitForInterrupt, ()⟩] (.done 0) := .ask _ (.refl _)
  have hturn := hseconds.bind (f := fun s => (showUptime 0 s).bind fun _ =>
      inputPending.bind fun pending => (answer pending).bind fun _ =>
        (waitForInterrupt).bind fun _ => .done s)
    (hpending.bind (hanswer.bind hsleep))
  rw [← serve_eq] at hturn
  refine ⟨_, _, hturn, ?_, rfl, rfl⟩
  rintro ⟨op, error, hmem⟩
  simp [maskedAgain, takesReturn, Exchange.read, Exchange.wrote] at hmem

/-- An empty line in a turn that finds it, and a line on a board. -/
theorem echo_loses_only_last_nul_ok :
    (∃ n turn, Path n (serve 0) turn (.done 0) ∧ bytesTaken turn = [0x0D] ∧
      bytesSent turn = [0x3E, 0x20, 0x0D, 0x0A] ∧ Serves 0 0 turn) ∧
    Echoed [0x0D] (lineText 1 emptyLine) (reply (lineText 1 emptyLine)) ∧
    ∃ uart, Returns (Machine.platform Board.bus) echoLine waitingBoard ()
        { waitingBoard with device := { waitingBoard.device with uart } } ∧
      uart.sent.toList = [0x3E, 0x20, 0x6F, 0x6B, 0x0D, 0x0A] := by
  obtain ⟨hturns, hlines, -, hboard⟩ := echo_loses_only_last_nul 0 waitingBoard
  refine ⟨?_, ?_, ?_⟩
  · obtain ⟨n, turn, hpath, hnone, htaken, hsent⟩ := exists_path_serve
    exact ⟨n, turn, hpath, htaken, hsent, hturns n 0 turn hpath hnone⟩
  · refine hlines 5 (1, emptyLine) takesReturn path_readLine ?_
    rintro ⟨op, error, hmem⟩
    simp [maskedAgain, takesReturn, Exchange.read] at hmem
  · have hline : Uart.LineTaken emptyLine [0x6F, 0x6B, 0x0D] 3
        ([0x6F, 0x6B] ++ 0 :: emptyLine.drop 3) :=
      ⟨rfl, Or.inr ⟨[0x6F, 0x6B], by decide, rfl, by decide, rfl⟩⟩
    have hvalid : ByteArray.IsValidUTF8 ⟨#[0x6F, 0x6B]⟩ := .intro ['o', 'k'] (by decide)
    obtain ⟨uart, sent, hreturns, hsent, hechoed⟩ := hboard _ [0x21] _ _ ⟨rfl, rfl⟩ rfl rfl hline
    refine ⟨uart, hreturns, ?_⟩
    rw [hsent, hechoed.sent hvalid]
    rfl

/-- 63 letters and a NUL: the NUL is not sent back. -/
theorem echo_loses_nul :
    let line : List UInt8 := List.replicate 63 0x61 ++ [0]
    let m : Machine UartModel := { device := { loopback := false, rx := line } }
    ∃ d, Returns (Machine.platform UartModel.bus) echoLine m () { m with device := d } ∧
      ByteArray.IsValidUTF8 ⟨(withoutReturn line).toArray⟩ ∧
      d.sent.toList = [0x3E, 0x20] ++ List.replicate 63 0x61 ++ [0x0D, 0x0A] ∧
      d.sent.toList ≠ [0x3E, 0x20] ++ withoutReturn line ++ [0x0D, 0x0A] := by
  intro line m
  have hline : Uart.LineTaken emptyLine line 64 line := ⟨by decide, Or.inl (by decide)⟩
  have hdrains : bitAt m.device.txStored 16 = false := by decide
  obtain ⟨d, hreturns, hsent⟩ := exists_returns_echoLine (m := m) rfl hdrains (by decide)
    (List.append_nil line).symm hline
  have htext : lineText 64 line = List.replicate 63 0x61 := by decide
  have hvalid : ByteArray.IsValidUTF8 ⟨(List.replicate 63 0x61).toArray⟩ :=
    .intro (List.replicate 63 'a') (by decide +kernel)
  have hkept : withoutReturn line = line := by decide
  have hvalidLine : ByteArray.IsValidUTF8 ⟨line.toArray⟩ :=
    .intro (List.replicate 63 'a' ++ ['\x00']) (by decide +kernel)
  rw [htext, reply_of_valid hvalid] at hsent
  refine ⟨d, hreturns, ?_, hsent, ?_⟩
  · rw [hkept]
    exact hvalidLine
  · rw [hsent, hkept]
    decide

end Firmware

end BoardSupport
