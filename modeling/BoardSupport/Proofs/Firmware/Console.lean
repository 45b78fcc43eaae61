import BoardSupport.Firmware.Board
import BoardSupport.Firmware.Console
import BoardSupport.Proofs.Csr.Interrupts
import BoardSupport.Proofs.Device.Part
import BoardSupport.Proofs.Uart.RoundTrip

/-!
# Printing

A UART that is full only for some readings of its status takes every byte in the end
(`UartModel.Drains`). On a board with such a console the firmware prints and comes back,
and nothing but the console has changed: the interrupts are masked for the length of a
text and then as they were (`Firmware.exists_returns_print`).
-/

namespace BoardSupport

open Program
open Fifo (Flag Side Status)

/-! ## The console of the board -/

/-- What a UART is asked for while it sends: the status of the sending side, and the data
register. -/
def Request.Sends (b : Block) (r : Request) : Prop :=
  r = .load b (Fifo.Register.status .tx).offset ∨
    ∃ value, r = .store b Fifo.Register.data.offset value

theorem Request.Sends.at {b : Block} {r : Request} (h : r.Sends b) : r.At b := by
  rcases h with rfl | ⟨value, rfl⟩
  · rfl
  · rfl

namespace Uart

variable (u : Uart)

theorem asks_writeWord (r : Fifo.Register) (value : UInt32) :
    Asks (Request.At u.block) (u.writeWord r value) := u.block.asks_write _ _

/-- A flag is in the status of its side. -/
theorem asks_hasFlag (side : Side) (flag : Flag) :
    Asks (· = .load u.block (Fifo.Register.status side).offset) (u.hasFlag side flag) := by
  have hread : Asks (· = .load u.block (Fifo.Register.status side).offset)
      (u.readWord (.status side)) := Asks.request rfl
  exact (hread.bind fun _ => .done _).bind fun _ => .done _

theorem asks_tryReadByte : Asks (Request.At u.block) u.tryReadByte := by
  refine ((u.asks_hasFlag .rx .empty).mono ?_).bind fun empty => ?_
  · rintro _ rfl
    rfl
  · cases empty with
    | true => exact .done _
    | false => exact (u.block.asks_read _).bind fun _ => .done _

/-- To send takes the status of the sending side and the data register. -/
theorem asks_writeByte (byte : UInt8) : Asks (Request.Sends u.block) (u.writeByte byte) := by
  refine (Asks.waitUntil (((u.asks_hasFlag .tx .full).mono ?_).bind fun _ => .done _)).bind
    fun _ => Asks.request (Or.inr ⟨_, rfl⟩)
  exact fun _ h => Or.inl h

theorem asks_writeBlock (bytes : List UInt8) :
    Asks (Request.Sends u.block) (u.writeBlock bytes) := by
  induction bytes with
  | nil => exact .done ()
  | cons byte rest ih => exact (u.asks_writeByte byte).bind fun _ => ih

/-- What asks for the next byte only asks for a line. -/
theorem asks_fillLine {P : Request → Prop} {next : Program UInt8} (h : Asks P next)
    (buffer : List UInt8) : Asks P (fillLine next buffer) := by
  induction buffer with
  | nil => exact .done _
  | cons b rest ih =>
      refine h.bind fun byte => ?_
      by_cases hend : byte = carriageReturn
      · rw [if_pos hend]
        exact .done _
      · rw [if_neg hend]
        exact ih.bind fun _ => .done _

end Uart

namespace Interrupts

variable {α : Type} {b : Block}

theorem asks_disable : Asks (Request.Within b) disable := by
  refine (Asks.request trivial).bind fun _ => (Asks.request trivial).bind fun result => ?_
  cases result with
  | ok _ => exact .done _
  | error e => exact .done _

theorem asks_disableAll : Asks (Request.Within b) disableAll := by
  refine (Asks.request trivial).bind fun result => ?_
  cases result with
  | ok _ => exact Asks.request trivial
  | error e => exact .done _

theorem asks_clearPending (line : Irq) : Asks (Request.Within b) (clearPending line) :=
  Asks.request trivial

theorem asks_clearAllPending : Asks (Request.Within b) clearAllPending := Asks.request trivial

/-- What masking asks for, and what the body does. -/
theorem asks_section {P : Request → Prop} {body : Program α} (hread : P (.readCsr .mstatus))
    (hupdate : ∀ op, P (.updateCsr .mstatus op)) (hbody : Asks P body) :
    Asks P (criticalSection body) := by
  rw [criticalSection_eq]
  refine Asks.bind ((Asks.request hread).bind fun _ => (Asks.request (hupdate _)).bind
    fun result => ?_) fun was => ?_
  · cases result with
    | ok _ => exact .done _
    | error e => exact .done _
  · cases was with
    | error e => exact .done _
    | ok enabled =>
        refine hbody.bind fun v => ?_
        cases enabled with
        | false => exact .done _
        | true =>
            refine (Asks.request (hupdate _)).bind fun result => ?_
            cases result with
            | ok _ => exact .done _
            | error e => exact .done _

theorem asks_criticalSection {body : Program α} (hbody : Asks (Request.Within b) body) :
    Asks (Request.Within b) (criticalSection body) :=
  asks_section trivial (fun _ => trivial) hbody

end Interrupts

namespace Firmware

theorem asks_withConsole {α : Type} {use : Uart → Program α}
    (h : Asks (Request.Within console.block) (use console)) :
    Asks (Request.Within console.block) (withConsole use) := by
  refine (Interrupts.asks_criticalSection h).bind fun result => ?_
  cases result with
  | ok v => exact .done _
  | error e => exact .done _

/-- Printing uses the console and the CSRs only. -/
theorem asks_print (text : String) : Asks (Request.Within console.block) (print text) :=
  (asks_withConsole ((console.asks_writeBlock _).mono fun _ h => h.at.within)).bind fun _ =>
    .done ()

theorem asks_printLine (text : String) : Asks (Request.Within console.block) (printLine text) :=
  (asks_print text).bind fun _ => asks_print lineEnd

/-- The line is set up and cleared by two writes. -/
theorem asks_setUp (config : Uart.Config) :
    Asks (Request.At console.block)
      ((console.init config).bind fun _ => console.clearFifo .rx) :=
  (console.asks_writeWord _ _).bind fun _ => console.asks_writeWord _ _

theorem asks_initConsole (config : Uart.Config) :
    Asks (Request.Within console.block) (initConsole config) :=
  (asks_withConsole ((asks_setUp config).mono fun _ => Request.At.within)).bind fun _ =>
    Asks.request trivial

theorem asks_inputPending : Asks (Request.Within console.block) inputPending := by
  have hflag : Asks (Request.Within console.block) (console.hasFlag .rx .empty) := by
    refine (console.asks_hasFlag .rx .empty).mono ?_
    rintro _ rfl
    rfl
  exact (asks_withConsole (hflag.bind fun _ => .done _)).bind fun _ => .done _

theorem asks_readLine (buffer : List UInt8) :
    Asks (Request.Within console.block) (readLine buffer) := by
  refine Uart.asks_fillLine (Asks.poll ?_) buffer
  exact (asks_withConsole (console.asks_tryReadByte.mono fun _ => Request.At.within)).bind
    fun _ => .done _

/-- What is done to the console is done with interrupts masked, and the CSRs are then as
they were. -/
theorem returns_withConsole {α δ : Type} {bus : Bus δ} {use : Uart → Program α}
    {m : Machine δ} {v : α} {d : δ} (h : m.Unrefused)
    (hbody : Returns (Machine.platform bus) (use console) m.masked v
      { m.masked with device := d }) :
    Returns (Machine.platform bus) (withConsole use) m (some v) { m with device := d } :=
  (Interrupts.returns_criticalSection h hbody).bind (returns_done.mpr ⟨rfl, rfl⟩)

/-- A text is sent to a console that drains. -/
theorem returns_print_uart {m : Machine UartModel} (h : m.Unrefused) (hd : m.device.Drains)
    (text : String) :
    Returns (Machine.platform UartModel.bus) (print text) m ()
      { m with device := m.device.written text.toUTF8.toList } := by
  have hbody := (console.completes_writeBlock (m := m.masked) hd text.toUTF8.toList).returns
  exact (returns_withConsole h hbody).bind (returns_done.mpr ⟨rfl, rfl⟩)

theorem exists_returns_print_uart {m : Machine UartModel} (h : m.Unrefused)
    (hd : m.device.Drains) (text : String) :
    ∃ d, d.Drains ∧
      Returns (Machine.platform UartModel.bus) (print text) m () { m with device := d } :=
  ⟨m.device.written text.toUTF8.toList, hd.written _, returns_print_uart h hd text⟩

namespace Board

/-- The console's UART in its place on the board. -/
theorem isPart_uart (board : Board) :
    IsPart UartModel.bus Board.bus console.block fun uart => { board with uart } where
  load := by
    intro offset e
    have hat : BoardBlock.at? console.block = some .uart := by decide
    simp only [Board.bus, hat]
    cases UartModel.bus.load console.block offset e with
    | ok answer => rfl
    | error c => rfl
  store := by
    intro offset value e
    have hat : BoardBlock.at? console.block = some .uart := by decide
    simp only [Board.bus, hat]
    cases UartModel.bus.store console.block offset value e with
    | ok e' => rfl
    | error c => rfl

end Board

/-- The machine can print: no CSR update is refused, and the console is not full for
ever. -/
structure Prints (m : Machine Board) : Prop where
  unrefused : m.Unrefused
  drains : m.device.uart.Drains

/-- The CSR file is `file`; nothing else has changed but the console, which still takes
text. -/
def Leaves (file : CsrFile) (m m' : Machine Board) : Prop :=
  ∃ uart : UartModel, uart.Drains ∧
    m' = { m with device := { m.device with uart }, csrs := { m.csrs with file } }

namespace Leaves

variable {m m₁ m₂ : Machine Board} {file file' : CsrFile}

theorem refl (h : Prints m) : Leaves m.csrs.file m m := ⟨m.device.uart, h.drains, rfl⟩

theorem prints (hm : Prints m) (h : Leaves file m m₁) : Prints m₁ := by
  obtain ⟨uart, hdrains, rfl⟩ := h
  exact ⟨hm.unrefused, hdrains⟩

theorem csrs_file (h : Leaves file m m₁) : m₁.csrs.file = file := by
  obtain ⟨_, _, rfl⟩ := h
  rfl

theorem trans (h : Leaves file m m₁) (h' : Leaves file' m₁ m₂) : Leaves file' m m₂ := by
  obtain ⟨_, _, rfl⟩ := h
  obtain ⟨uart, hdrains, rfl⟩ := h'
  exact ⟨uart, hdrains, rfl⟩

theorem setCsr (h : Leaves file m m₁) (c : Csr) (v : UInt32) :
    Leaves (file.set c v) m (m₁.setCsr c v) := by
  obtain ⟨uart, hdrains, rfl⟩ := h
  exact ⟨uart, hdrains, rfl⟩

end Leaves

/-- **Printing changes only the console.** -/
theorem exists_returns_print {m : Machine Board} (h : Prints m) (text : String) :
    ∃ m', Returns (Machine.platform Board.bus) (print text) m () m' ∧
      Leaves m.csrs.file m m' := by
  obtain ⟨uart, hdrains, hret⟩ := exists_returns_print_uart
    (m := { m with device := m.device.uart }) h.unrefused h.drains text
  exact ⟨_, (Board.isPart_uart m.device).returns (asks_print text) hret, uart, hdrains, rfl⟩

end Firmware

end BoardSupport
